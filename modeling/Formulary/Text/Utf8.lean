/-
  Decoding UTF-8.

  Only shortest encodings of code points outside of the surrogates are taken.
  An error says which bytes it blames: the lead and the continuation bytes
  that fit it.
-/

namespace Formulary.Text

inductive Utf8Fault where
  | startByte
  | continuationByte
  | endOfData
  deriving DecidableEq, Repr

/-- Bytes that are not UTF-8: the fault, the offset of the first byte blamed, that
byte, and how many are blamed. -/
structure Utf8Error where
  fault : Utf8Fault
  offset : Nat
  byte : UInt8
  width : Nat
  deriving DecidableEq, Repr

def isContinuation (b : UInt8) : Bool := 0x80 ≤ b && b ≤ 0xbf

/-- Whether `b` may follow the lead byte `a`: a continuation that makes the
encoding neither overlong, nor a surrogate, nor too large. -/
def mayFollow (a b : UInt8) : Bool :=
  isContinuation b &&
    (if a = 0xe0 then 0xa0 ≤ b
     else if a = 0xed then b ≤ 0x9f
     else if a = 0xf0 then 0x90 ≤ b
     else if a = 0xf4 then b ≤ 0x8f
     else true)

def low6 (b : UInt8) : Nat := b.toNat % 0x40

/-- How many bytes a character takes that starts with `a`; zero when none
does. -/
def utf8Width (a : UInt8) : Nat :=
  if a < 0x80 then 1
  else if 0xc2 ≤ a && a ≤ 0xdf then 2
  else if 0xe0 ≤ a && a ≤ 0xef then 3
  else if 0xf0 ≤ a && a ≤ 0xf4 then 4
  else 0

/-- The characters of bytes that start at `offset`, after those of `read`, the
last one first. -/
def decodeFrom (offset : Nat) (read : List Char) : List UInt8 → Except Utf8Error (List Char)
  | [] => .ok read.reverse
  | a :: rest =>
    let fault (f : Utf8Fault) (width : Nat) : Except Utf8Error (List Char) :=
      .error ⟨f, offset, a, width⟩
    match utf8Width a with
    | 0 => fault .startByte 1
    | 1 => decodeFrom (offset + 1) (Char.ofNat a.toNat :: read) rest
    | 2 =>
      match rest with
      | [] => fault .endOfData 1
      | b :: rest =>
        if !mayFollow a b then fault .continuationByte 1
        else
          let n := (a.toNat % 0x20) * 0x40 + low6 b
          decodeFrom (offset + 2) (Char.ofNat n :: read) rest
    | 3 =>
      match rest with
      | [] => fault .endOfData 1
      | b :: rest =>
        if !mayFollow a b then fault .continuationByte 1
        else match rest with
          | [] => fault .endOfData 2
          | c :: rest =>
            if !isContinuation c then fault .continuationByte 2
            else
              let n := (a.toNat % 0x10) * 0x1000 + low6 b * 0x40 + low6 c
              decodeFrom (offset + 3) (Char.ofNat n :: read) rest
    | _ =>
      match rest with
      | [] => fault .endOfData 1
      | b :: rest =>
        if !mayFollow a b then fault .continuationByte 1
        else match rest with
          | [] => fault .endOfData 2
          | c :: rest =>
            if !isContinuation c then fault .continuationByte 2
            else match rest with
              | [] => fault .endOfData 3
              | d :: rest =>
                if !isContinuation d then fault .continuationByte 3
                else
                  let n := (a.toNat % 0x08) * 0x40000 + low6 b * 0x1000 + low6 c * 0x40 + low6 d
                  decodeFrom (offset + 4) (Char.ofNat n :: read) rest

def decodeUtf8 (bytes : List UInt8) : Except Utf8Error (List Char) := decodeFrom 0 [] bytes

/-- Line ends of every platform as line feeds. -/
def unifyLineEnds : List Char → List Char
  | [] => []
  | '\r' :: '\n' :: cs => '\n' :: unifyLineEnds cs
  | c :: cs => (if c = '\r' then '\n' else c) :: unifyLineEnds cs

end Formulary.Text
