import Userscript.Text.Digit

/-!
# UTF-8

A text is stored as bytes in UTF-8. Bytes are read by cutting them into pieces, each
either one well formed sequence or a longest run that could have begun one. Strict
reading refuses the first bad run and says where it stands; lenient reading shows each
bad run as one replacement character.

## Main definitions

* `Utf8.encode` — the bytes of a text
* `Utf8.pieces` — the well formed sequences and the bad runs of some bytes
* `Utf8.decode` — strict reading, with the `Fault` that stops it
* `Utf8.decodeLenient` — reading that never fails
-/

namespace Userscript

/-- A file's content, or what a program prints. -/
abbrev Bytes := List UInt8

namespace Utf8

/-- The bytes of a character. -/
def encodeChar (c : Char) : Bytes :=
  let n := c.toNat
  let continuation (unit : Nat) : UInt8 := .ofNat (0x80 + n / unit % 64)
  if n < 0x80 then [.ofNat n]
  else if n < 0x800 then [.ofNat (0xC0 + n / 64), continuation 1]
  else if n < 0x10000 then [.ofNat (0xE0 + n / 4096), continuation 64, continuation 1]
  else [.ofNat (0xF0 + n / 262144), continuation 4096, continuation 64, continuation 1]

/-- The bytes of a text. -/
def encode (t : Text) : Bytes := t.flatMap encodeChar

/-- How many bytes a text takes. -/
def size (t : Text) : Nat := (encode t).length

/-- Why a run of bytes is bad. -/
inductive Reason where
  /-- Its byte begins no sequence. -/
  | badStart
  /-- The byte after it cannot continue the sequence. -/
  | badContinuation
  /-- The bytes end within the sequence. -/
  | endOfData
  deriving DecidableEq

/-- The wording of a reason. -/
def Reason.message : Reason → String
  | .badStart => "invalid start byte"
  | .badContinuation => "invalid continuation byte"
  | .endOfData => "unexpected end of data"

/-- A piece of some bytes: a character, or a run that is none. -/
inductive Piece where
  | char (c : Char)
  | bad (run : Bytes) (reason : Reason)

/-- A sequence that has begun and is not complete. -/
structure OpenSequence where
  /-- Its bytes so far, last one first. -/
  run : Bytes
  /-- How many bytes are missing; at least one. -/
  missing : Nat
  /-- The least next byte that continues it. -/
  low : UInt8
  /-- The greatest next byte that continues it. -/
  high : UInt8
  /-- The bits read so far. -/
  value : Nat

/-- The pieces read so far, last one first, and the sequence that is open. -/
structure Decoder where
  pieces : List Piece := []
  pending : Option OpenSequence := none

/-- A byte at the beginning of a piece. -/
def Decoder.start (pieces : List Piece) (b : UInt8) : Decoder :=
  let opening (missing : Nat) (low high : UInt8) (value : Nat) : Decoder :=
    ⟨pieces, some ⟨[b], missing, low, high, value⟩⟩
  if b < 0x80 then ⟨.char (.ofNat b.toNat) :: pieces, none⟩
  else if b < 0xC2 then ⟨.bad [b] .badStart :: pieces, none⟩
  else if b < 0xE0 then opening 1 0x80 0xBF (b.toNat - 0xC0)
  else if b < 0xF0 then
    opening 2 (if b = 0xE0 then 0xA0 else 0x80) (if b = 0xED then 0x9F else 0xBF) (b.toNat - 0xE0)
  else if b < 0xF5 then
    opening 3 (if b = 0xF0 then 0x90 else 0x80) (if b = 0xF4 then 0x8F else 0xBF) (b.toNat - 0xF0)
  else ⟨.bad [b] .badStart :: pieces, none⟩

/-- A decoder reads one byte. A byte that cannot continue the open sequence ends it as a
bad run and begins a piece of its own. -/
def Decoder.step (d : Decoder) (b : UInt8) : Decoder :=
  match d.pending with
  | none => .start d.pieces b
  | some p =>
    if p.low ≤ b ∧ b ≤ p.high then
      let value := 64 * p.value + (b.toNat - 0x80)
      if p.missing ≤ 1 then ⟨.char (.ofNat value) :: d.pieces, none⟩
      else ⟨d.pieces, some ⟨b :: p.run, p.missing - 1, 0x80, 0xBF, value⟩⟩
    else .start (.bad p.run.reverse .badContinuation :: d.pieces) b

/-- The pieces once all bytes are read, in order. -/
def Decoder.finish (d : Decoder) : List Piece :=
  match d.pending with
  | none => d.pieces.reverse
  | some p => (.bad p.run.reverse .endOfData :: d.pieces).reverse

/-- The well formed sequences and the bad runs of some bytes, in order. -/
def pieces (bytes : Bytes) : List Piece := (bytes.foldl Decoder.step {}).finish

/-- The character that stands for a piece: a bad run is shown by the replacement
character. -/
def Piece.shown : Piece → Char
  | .char c => c
  | .bad _ _ => '\uFFFD'

/-- The first bad run of some bytes. -/
structure Fault where
  /-- How many bytes stand before the run. -/
  position : Nat
  run : Bytes
  reason : Reason

/-- The first bad run among pieces that begin at byte `position`. -/
def firstFault (position : Nat) : List Piece → Option Fault
  | [] => none
  | .char c :: rest => firstFault (position + (encodeChar c).length) rest
  | .bad run reason :: _ => some ⟨position, run, reason⟩

/-- The text that bytes hold; a bad run is refused. -/
def decode (bytes : Bytes) : Except Fault Text :=
  let found := pieces bytes
  match firstFault 0 found with
  | some fault => .error fault
  | none => .ok (found.map Piece.shown)

/-- The text that bytes hold, with a replacement character for each bad run. -/
def decodeLenient (bytes : Bytes) : Text := (pieces bytes).map Piece.shown

/-- The wording of a fault: it gives the byte if the run has only one, and the position of
its first and last byte otherwise. -/
def Fault.message (f : Fault) : String :=
  let place :=
    match f.run with
    | [b] => "byte 0x" ++ String.ofList (Text.hex 2 b.toNat) ++ s!" in position {f.position}"
    | run => s!"bytes in position {f.position}-{f.position + run.length - 1}"
  "'utf-8' codec can't decode " ++ place ++ ": " ++ f.reason.message

end Utf8

end Userscript
