/-! # UTF-8

Characters and their bytes. Decoding accepts exactly the shortest encodings of scalar values and
tells how many bytes are valid in front of the first fault.
-/

namespace FrameTiming.Text.Utf8

def encode (text : List Char) : List UInt8 :=
  text.flatMap String.utf8EncodeChar

/-! ## Decoding -/

private def continuation? (byte : UInt8) : Option Nat :=
  if 0x80 ≤ byte ∧ byte < 0xc0 then some (byte.toNat - 0x80) else none

/-- The scalar value with this code, unless a shorter encoding reaches it: codes from `least` on
need the length at hand. -/
private def scalar? (least code : Nat) : Option Char :=
  if valid : least ≤ code ∧ code.isValidChar then some (Char.ofNatAux code valid.2) else none

private def two? (first second : UInt8) : Option Char :=
  if 0xc0 ≤ first ∧ first < 0xe0 then do
    let low ← continuation? second
    scalar? 0x80 ((first.toNat - 0xc0) * 64 + low)
  else
    none

private def three? (first second third : UInt8) : Option Char :=
  if 0xe0 ≤ first ∧ first < 0xf0 then do
    let middle ← continuation? second
    let low ← continuation? third
    scalar? 0x800 (((first.toNat - 0xe0) * 64 + middle) * 64 + low)
  else
    none

private def four? (first second third fourth : UInt8) : Option Char :=
  if 0xf0 ≤ first ∧ first < 0xf8 then do
    let high ← continuation? second
    let middle ← continuation? third
    let low ← continuation? fourth
    scalar? 0x10000 ((((first.toNat - 0xf0) * 64 + high) * 64 + middle) * 64 + low)
  else
    none

/-- The text that the bytes encode, or the number of bytes in front of the first fault, counted
from `offset`. -/
def decodeFrom (offset : Nat) : List UInt8 → Except Nat (List Char)
  | [] => .ok []
  | first :: afterFirst =>
      if first < 0x80 then
        (decodeFrom (offset + 1) afterFirst).map (Char.ofUInt8 first :: ·)
      else match afterFirst with
        | [] => .error offset
        | second :: afterSecond =>
            match two? first second with
            | some char => (decodeFrom (offset + 2) afterSecond).map (char :: ·)
            | none => match afterSecond with
                | [] => .error offset
                | third :: afterThird =>
                    match three? first second third with
                    | some char => (decodeFrom (offset + 3) afterThird).map (char :: ·)
                    | none => match afterThird with
                        | [] => .error offset
                        | fourth :: afterFourth =>
                            match four? first second third fourth with
                            | some char => (decodeFrom (offset + 4) afterFourth).map (char :: ·)
                            | none => .error offset

/-- The text that the bytes encode, or the length of the valid prefix. -/
def decode (bytes : List UInt8) : Except Nat (List Char) :=
  decodeFrom 0 bytes

def decode? (bytes : List UInt8) : Option String :=
  (decode bytes).toOption.map String.ofList

/-- A byte of ASCII stands for itself wherever it stands, and no sequence reaches across it. -/
theorem decodeFrom_concat_ascii (offset : Nat) (bytes : List UInt8) {byte : UInt8}
    (ascii : byte < 0x80) : decodeFrom offset (bytes ++ [byte]) =
      (decodeFrom offset bytes).map (· ++ [Char.ofUInt8 byte]) := by
  have alone : continuation? byte = none := by
    rw [continuation?, if_neg]
    exact fun continues => absurd ascii (UInt8.not_lt.mpr continues.1)
  have noTwo (first : UInt8) : two? first byte = none := by simp [two?, alone]
  have noThree (first second : UInt8) : three? first second byte = none := by simp [three?, alone]
  have noFour (first second third : UInt8) : four? first second third byte = none := by
    simp [four?, alone]
  have appended (char : Char) (decoded : Except Nat (List Char)) :
      (decoded.map (· ++ [Char.ofUInt8 byte])).map (char :: ·) =
        (decoded.map (char :: ·)).map (· ++ [Char.ofUInt8 byte]) := by
    cases decoded <;> rfl
  fun_induction decodeFrom offset bytes with
  | case1 =>
      rw [List.nil_append, decodeFrom.eq_def]
      simp only [ascii, if_true]
      rfl
  | case2 offset first rest single induction =>
      rw [List.cons_append, decodeFrom.eq_def, ← appended, ← induction]
      simp only [single, if_true]
  | case4 offset first long second rest char two induction =>
      rw [List.cons_append, List.cons_append, decodeFrom.eq_def, ← appended, ← induction]
      simp only [long, two, if_false]
  | case6 offset first long second other third rest char three induction =>
      rw [List.cons_append, List.cons_append, List.cons_append, decodeFrom.eq_def, ← appended,
        ← induction]
      simp only [long, other, three, if_false]
  | case8 offset first long second other third another fourth rest char four induction =>
      rw [List.cons_append, List.cons_append, List.cons_append, List.cons_append,
        decodeFrom.eq_def, ← appended, ← induction]
      simp only [long, other, another, four, if_false]
  -- A sequence that ended too early goes on with a byte that continues none.
  | case3 offset first long =>
      rw [List.singleton_append, decodeFrom.eq_def]
      simp only [long, noTwo, if_false]
      rfl
  | case5 offset first long second other =>
      rw [List.cons_append, List.singleton_append, decodeFrom.eq_def]
      simp only [long, other, noThree, if_false]
      rfl
  | case7 offset first long second other third another =>
      rw [List.cons_append, List.cons_append, List.singleton_append, decodeFrom.eq_def]
      simp only [long, other, another, noFour, if_false]
      rfl
  | case9 offset first long second other third another fourth rest fault =>
      rw [List.cons_append, List.cons_append, List.cons_append, List.cons_append,
        decodeFrom.eq_def]
      simp only [long, other, another, fault, if_false]
      rfl

example : decode (encode "aé日😀".toList) = .ok "aé日😀".toList := by rfl
example : decode [0x61, 0xed, 0xa0, 0x80] = .error 1 := by rfl
example : decode [0xc0, 0x80] = .error 0 := by rfl
example : decode [0xf4, 0x90, 0x80, 0x80] = .error 0 := by rfl

end FrameTiming.Text.Utf8
