/-
# How much space a line takes

A line may hold control sequences, which a terminal obeys and does not show.  They are told apart
byte by byte; everything else is shown cluster by cluster, but a printable character of ASCII is
always taken by itself.
-/
import Pseudocode.Text.Cluster
import Pseudocode.Text.Utf8

namespace Pseudocode.Text

/-- Where a terminal stands in a control sequence. -/
inductive Control where
  /-- Outside of any. -/
  | ground
  | escape | escapeIntermediate
  /-- In the parameters of a sequence, and in what follows them. -/
  | parameters | intermediate
  /-- The same for a sequence that goes over into a string. -/
  | deviceEntry | deviceParameters | deviceIntermediate | deviceString
  /-- In a command to the operating system. -/
  | systemString
  /-- In a string that is passed over. -/
  | ignoredString
deriving DecidableEq, Repr, Inhabited

namespace Control

/-- Where a byte leads that means the same in almost every place. -/
def anywhere? (b : Nat) : Option Control :=
  if b == 0x1B then some escape
  else if b == 0x18 || b == 0x1A then some ground
  else if b == 0x90 then some deviceEntry
  else if b == 0x98 || b == 0x9E || b == 0x9F then some ignoredString
  else if b == 0x9B then some parameters
  else if b == 0x9D then some systemString
  else if 0x80 ≤ b then some ground
  else none

/-- Where a byte after the escape character leads. -/
def afterEscape (b : Nat) : Control :=
  if b < 0x20 || b == 0x7F then escape
  else if b < 0x30 then escapeIntermediate
  else if b == 0x50 then deviceEntry
  else if b == 0x58 || b == 0x5E || b == 0x5F then ignoredString
  else if b == 0x5B then parameters
  else if b == 0x5D then systemString
  else ground

/-- Where a byte of ASCII leads, the few that `anywhere?` treats aside. -/
def afterAscii (s : Control) (b : Nat) : Control :=
  let stays := b < 0x20 || b == 0x7F
  match s with
  | ground => ground
  | escape => afterEscape b
  | escapeIntermediate => if stays || b < 0x30 then s else ground
  | parameters =>
      if stays then s else if b < 0x30 then intermediate else if b < 0x40 then s else ground
  | intermediate => if stays || b < 0x30 then s else ground
  | deviceEntry =>
      if 0x08 ≤ b && b ≤ 0x0D then deviceString
      else if stays then s
      else if b < 0x30 then deviceIntermediate
      else if b < 0x40 then deviceParameters
      else deviceString
  | deviceParameters =>
      if stays then s
      else if b < 0x30 then deviceIntermediate
      else if b < 0x40 then s
      else deviceString
  | deviceIntermediate => if stays || b < 0x30 then s else deviceString
  | deviceString => s
  | systemString => if b == 0x07 then ground else s
  | ignoredString => s

/-- Whether a place is in a string that may hold any character. -/
def isOpenString : Control → Bool
  | deviceString | systemString => true
  | _ => false

/-- Where a byte leads.  The byte that ends a string does so inside of a character as well. -/
def after (s : Control) (b : Nat) : Control :=
  if s.isOpenString && 0x80 ≤ b then if b == 0x9C then ground else s
  else if s == deviceEntry && b == 0x1B then deviceString
  else
    match anywhere? b with
    | some t => t
    | none => s.afterAscii b

end Control

/-- How many columns the characters of a line take, after some that are passed over. -/
def columnsFrom : (passed : Nat) → Control → List Char → Nat
  | _, _, [] => 0
  | passed + 1, s, _ :: rest => columnsFrom passed s rest
  | 0, s, c :: rest =>
      if c.toNat < 0x80 then
        let shown := s == .ground && 0x20 ≤ c.toNat && c.toNat < 0x7F
        (if shown then 1 else 0) + columnsFrom 0 (s.after c.toNat) rest
      else if s.isOpenString then
        columnsFrom 0 ((encode [c]).foldl (fun s b => s.after b.toNat) s) rest
      else
        let (count, width) := cluster c rest
        width + columnsFrom count .ground rest

/-- How many columns a line takes. -/
def columns (line : List Char) : Nat := columnsFrom 0 .ground line

end Pseudocode.Text
