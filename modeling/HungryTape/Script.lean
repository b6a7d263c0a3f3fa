import HungryTape.Files
import HungryTape.Machine.Run
import HungryTape.Settings

namespace HungryTape.Script

def ofSource (settings : Settings) (source : String) (journal : Journal) :
    Except Failure Program × Journal :=
  match Program.ofSource source settings.sourceLimit with
  | .ok p => (.ok p, journal.note (.scanned source.length p.size))
  | .error e => (.error (.tooLarge e), journal)

def load (files : FileSystem) (settings : Settings) (path : String) (journal : Journal) :
    Except Failure Program × Journal :=
  match files path with
  | .missing => (.error (.notFound path), journal)
  | .refused message => (.error (.unreadable path message), journal)
  | .contents bytes =>
    ofSource settings (Text.ofLatin1 bytes) (journal.note (.loaded bytes.length path))

/-- Runs a program on a fresh tape. -/
def run (settings : Settings) (p : Program) (console : Console) :
    Except Failure Outcome × Console :=
  match Tape.ofCapacity settings.tapeSize settings.stomach with
  | .error e => (.error (.badTape e), console)
  | .ok tape =>
    let (result, m) := (Machine.ofTape tape console).run p
    (result.mapError .fault, m.toConsole)

end HungryTape.Script
