/-! # Text from bytes

* `Utf8.decode`: the text of a list of bytes, or the first bytes that are no UTF-8 with the reason.
  Overlong forms, surrogates and values past the last code point are refused at their second byte.
* `Utf8.decodeMarked`: the text of bytes that may begin with a byte order mark, whole or broken off.
* `Text.unifyLines`: a carriage return, alone or with the line feed behind it, becomes a line feed.
-/

namespace Compliance

/-- Why bytes are no UTF-8. -/
inductive Utf8.Reason where
  | start
  | continuation
  | truncated
deriving DecidableEq, Repr

/-- The bytes at the positions `first` to `last` are no UTF-8; `byte` is the first of them. -/
structure Utf8.Fault where
  byte : UInt8
  first : Nat
  last : Nat
  reason : Utf8.Reason
deriving DecidableEq, Repr

namespace Utf8

def Reason.message : Reason → String
  | .start => "invalid start byte"
  | .continuation => "invalid continuation byte"
  | .truncated => "unexpected end of data"

def hexByte (b : UInt8) : String :=
  String.ofList [Nat.digitChar (b.toNat / 16), Nat.digitChar (b.toNat % 16)]

/-- The fault in words, with the bytes that it is about. -/
def Fault.message (e : Fault) : String :=
  let place :=
    if e.first = e.last then
      "byte 0x" ++ hexByte e.byte ++ " in position " ++ toString e.first
    else "bytes in position " ++ toString e.first ++ "-" ++ toString e.last
  "'utf-8' codec can't decode " ++ place ++ ": " ++ e.reason.message

/-- What the bytes at the front of a list encode. -/
inductive Step where
  | char (c : Char) (used : Nat)
  | bad (reason : Reason) (count : Nat)

/-- A byte that only stands behind a start byte. -/
def isContinuation (b : UInt8) : Bool := b.toNat / 64 == 2

/-- The second bytes that may follow a start byte: some are narrowed, so that no code point has two
encodings and none is a surrogate or too large. -/
def allowsSecond (b0 b1 : UInt8) : Bool :=
  isContinuation b1 &&
    !(b0 == 0xE0 && b1 < 0xA0) && !(b0 == 0xED && 0xA0 ≤ b1) &&
    !(b0 == 0xF0 && b1 < 0x90) && !(b0 == 0xF4 && 0x90 ≤ b1)

/-- The number of bytes of an encoding by its start byte; 0 for a byte that is none. -/
def lengthOf (b : UInt8) : Nat :=
  if b < 0x80 then 1
  else if b < 0xC2 then 0
  else if b < 0xE0 then 2
  else if b < 0xF0 then 3
  else if b < 0xF5 then 4
  else 0

/-- The code point of the payload bits of a start byte and its continuation bytes. -/
def codePoint (lead : Nat) (rest : List UInt8) : Char :=
  Char.ofNat (rest.foldl (fun n b => n * 64 + b.toNat % 64) lead)

/-- The first character of the bytes `b :: rest`. -/
def step (b : UInt8) (rest : List UInt8) : Step :=
  match lengthOf b, rest with
  | 0, _ => .bad .start 1
  | 1, _ => .char (Char.ofNat b.toNat) 0
  | _, [] => .bad .truncated 1
  | 2, b1 :: _ =>
    if allowsSecond b b1 then .char (codePoint (b.toNat % 32) [b1]) 1 else .bad .continuation 1
  | 3, b1 :: r =>
    if !allowsSecond b b1 then .bad .continuation 1
    else
      match r with
      | [] => .bad .truncated 2
      | b2 :: _ =>
        if isContinuation b2 then .char (codePoint (b.toNat % 16) [b1, b2]) 2
        else .bad .continuation 2
  | _, b1 :: r =>
    if !allowsSecond b b1 then .bad .continuation 1
    else
      match r with
      | [] => .bad .truncated 2
      | b2 :: r =>
        if !isContinuation b2 then .bad .continuation 2
        else
          match r with
          | [] => .bad .truncated 3
          | b3 :: _ =>
            if isContinuation b3 then .char (codePoint (b.toNat % 8) [b1, b2, b3]) 3
            else .bad .continuation 3

/-- Decodes from position `at_` on, in front of which `done` was read, last character first. -/
def decodeFrom (at_ : Nat) (done : List Char) : List UInt8 → Except Fault (List Char)
  | [] => .ok done.reverse
  | b :: rest =>
    match step b rest with
    | .char c used => decodeFrom (at_ + used + 1) (c :: done) (rest.drop used)
    | .bad reason count => .error ⟨b, at_, at_ + count - 1, reason⟩
termination_by bs => bs.length
decreasing_by simp only [List.length_cons, List.length_drop]; omega

/-- The text of a list of bytes. -/
def decode (bytes : List UInt8) : Except Fault (List Char) := decodeFrom 0 [] bytes

end Utf8

namespace Text

/-- Every line ends in a line feed alone. -/
def unifyLines : List Char → List Char
  | [] => []
  | '\r' :: '\n' :: r => '\n' :: unifyLines r
  | c :: r => (if c = '\r' then '\n' else c) :: unifyLines r

/-- The text without a byte order mark in front. -/
def dropMark : List Char → List Char
  | '\ufeff' :: r => r
  | cs => cs

end Text

namespace Utf8

/-- The bytes of a byte order mark. -/
def mark : List UInt8 := [0xEF, 0xBB, 0xBF]

/-- The text of a list of bytes behind a byte order mark, if there is one. A mark that breaks off at
the end of the bytes is no fault, and has no text behind it. -/
def decodeMarked (bytes : List UInt8) : Except Fault (List Char) :=
  if bytes.isPrefixOf mark then .ok [] else (decode bytes).map Text.dropMark

end Utf8

end Compliance
