import HungryTape.Main
import HungryTape.Proofs.FoodDebt
import HungryTape.Proofs.Starvation
import HungryTape.Proofs.Faults
import HungryTape.Proofs.Comments
import HungryTape.Proofs.Abridged
import HungryTape.Proofs.CommentText
import HungryTape.Proofs.Words
import HungryTape.Proofs.Consoles
import HungryTape.Proofs.Widening
import HungryTape.Proofs.Coupling
import HungryTape.Proofs.LargerTape
import HungryTape.Proofs.Appending
import HungryTape.Proofs.Sessions
import HungryTape.Proofs.FullOutput
import HungryTape.Proofs.Lookahead
import HungryTape.Proofs.Blame
import HungryTape.Proofs.Ranges
import HungryTape.Proofs.Acceptance
import HungryTape.Proofs.Searches
import HungryTape.Proofs.Trails
import HungryTape.Proofs.Passes
import HungryTape.Proofs.LoopEnds
import HungryTape.Proofs.Conditionals
import HungryTape.Proofs.Arguments
import HungryTape.Proofs.ReadBack
import HungryTape.Proofs.Literals
import HungryTape.Proofs.Items
import HungryTape.Proofs.WrittenSettings
import HungryTape.Proofs.Verbosity
import HungryTape.Proofs.OptionOrder
import HungryTape.Proofs.Listings
import HungryTape.Proofs.Arithmetic
import HungryTape.Proofs.LiveSearch
import HungryTape.Proofs.Effects
import HungryTape.Proofs.Repetition
