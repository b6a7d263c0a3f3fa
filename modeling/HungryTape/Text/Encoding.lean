namespace HungryTape.Text

def latin1Char (b : UInt8) : Char :=
  Char.ofNat b.toNat

theorem toNat_latin1Char (b : UInt8) : (latin1Char b).toNat = b.toNat := by
  have valid : b.toNat.isValidChar := .inl (Nat.lt_trans b.toNat_lt (by decide))
  rw [latin1Char, Char.ofNat, dif_pos valid]
  rfl

/-- Source files are byte streams: each byte is one character, so any file can be read. -/
def ofLatin1 (bytes : List UInt8) : String :=
  String.ofList (bytes.map latin1Char)

def utf8 (text : String) : List UInt8 :=
  text.toList.flatMap String.utf8EncodeChar

/-- A character that came from a source byte goes back out as that byte, and any other in UTF-8. -/
def charBytes (c : Char) : List UInt8 :=
  if c.toNat < 256 then [c.toNat.toUInt8] else String.utf8EncodeChar c

end HungryTape.Text
