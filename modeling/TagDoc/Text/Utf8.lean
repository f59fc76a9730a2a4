/-!
# UTF-8

Bytes are decoded by a machine that takes one byte at a time.  A sequence that
breaks off gives one error for the bytes of its longest well-formed beginning,
and the byte that broke it is looked at afresh.  `decode?` refuses errors and
`decodeLossy` replaces each of them by U+FFFD.
-/

namespace TagDoc.Text.Utf8

/-- A sequence under way: the bits so far, the number of bytes to come, and
the range of the next one. -/
structure Pending where
  bits : Nat
  missing : Nat
  low : Nat
  high : Nat

/-- What a byte gives that starts a sequence: a character, an error, or a
sequence under way. -/
def start (byte : Nat) : List (Option Char) × Option Pending :=
  if byte < 0x80 then ([some (Char.ofNat byte)], none)
  else if 0xC2 ≤ byte ∧ byte ≤ 0xDF then ([], some ⟨byte - 0xC0, 1, 0x80, 0xBF⟩)
  else if byte = 0xE0 then ([], some ⟨0, 2, 0xA0, 0xBF⟩)
  else if byte = 0xED then ([], some ⟨0xD, 2, 0x80, 0x9F⟩)
  else if 0xE1 ≤ byte ∧ byte ≤ 0xEF then ([], some ⟨byte - 0xE0, 2, 0x80, 0xBF⟩)
  else if byte = 0xF0 then ([], some ⟨0, 3, 0x90, 0xBF⟩)
  else if byte = 0xF4 then ([], some ⟨4, 3, 0x80, 0x8F⟩)
  else if 0xF1 ≤ byte ∧ byte ≤ 0xF3 then ([], some ⟨byte - 0xF0, 3, 0x80, 0xBF⟩)
  else ([none], none)

/-- Take one byte: the characters and errors that it completes, and the
sequence then under way. -/
def step (byte : Nat) : Option Pending → List (Option Char) × Option Pending
  | none => start byte
  | some pending =>
      if pending.low ≤ byte ∧ byte ≤ pending.high then
        let bits := pending.bits * 64 + (byte - 0x80)
        if pending.missing = 1 then ([some (Char.ofNat bits)], none)
        else ([], some ⟨bits, pending.missing - 1, 0x80, 0xBF⟩)
      else
        let (fresh, next) := start byte
        (none :: fresh, next)

/-- The characters and errors of the bytes that follow a sequence under way. -/
def decodeFrom : Option Pending → List UInt8 → List (Option Char)
  | none, [] => []
  | some _, [] => [none]
  | pending, byte :: rest =>
      let (here, next) := step byte.toNat pending
      here ++ decodeFrom next rest

def decode? (bytes : List UInt8) : Option String :=
  ((decodeFrom none bytes).mapM id).map String.ofList

def decodeLossy (bytes : List UInt8) : String :=
  String.ofList ((decodeFrom none bytes).map (·.getD '\uFFFD'))

end TagDoc.Text.Utf8
