import Mathlib.Tactic.Ring
import Mcsos.Core.Log
import Mcsos.Lib.Outcome

/-!
# What can be read back from the log

The kernel reports the values of registers and codes as `key=0x` and sixteen digits.  A report is
of use only if the values can be recovered from the transmitted text.  `readValues` is a reader for
it, which looks for `=0x` and sixteen hexadecimal digits and skips everything else, such as the line
number in decimal that a panic comes with; line ends do not matter to it, whatever they have been
expanded to.  It finds the values of all lines of the form above (`readValues_keyValueLine`), and
nothing in texts that are `Quiet`.
-/

set_option autoImplicit false

namespace Mcsos
namespace Core

open Arch Program

/-! ## A reader -/

/-- The value of a hexadecimal digit. -/
def hexValue (c : UInt8) : Option ℕ :=
  if 48 ≤ c ∧ c ≤ 57 then some (c - 48).toNat
  else if 97 ≤ c ∧ c ≤ 102 then some (c - 87).toNat
  else none

/-- Read `n` digits, behind others that stand for `acc`. -/
def readHex : ℕ → ℕ → List UInt8 → Option ℕ
  | 0, acc, _ => some acc
  | _ + 1, _, [] => none
  | n + 1, acc, c :: l => (hexValue c).bind fun d ↦ readHex n (acc * 16 + d) l

/-- The values of a log. -/
def readValues : List UInt8 → List ℕ
  | [] => []
  | c :: l =>
    if c = 61 ∧ l.take 2 = [48, 120] then (readHex 16 0 (l.drop 2)).toList ++ readValues l
    else readValues l

/-- No value begins in this text: each of its equality signs is followed by something other than a
zero. -/
def Quiet : List UInt8 → Prop
  | [] => True
  | c :: l => (c = 61 → ∃ d ∈ l.head?, d ≠ 48) ∧ Quiet l

instance decidableQuiet : DecidablePred Quiet
  | [] => inferInstanceAs (Decidable True)
  | _ :: l =>
    haveI := decidableQuiet l
    inferInstanceAs (Decidable (_ ∧ _))

section Reader

variable {t u : List UInt8}

theorem readValues_append (h : Quiet t) (u : List UInt8) :
    readValues (t ++ u) = readValues u := by
  induction t with
  | nil => rfl
  | cons c t ih =>
    rw [List.cons_append, readValues, if_neg, ih h.2]
    rintro ⟨hc, htake⟩
    obtain ⟨d, hd, hne⟩ := h.1 hc
    cases t with
    | nil => cases hd
    | cons e t =>
      cases hd
      exact hne (List.cons.inj htake).1

theorem Quiet.of_not_mem (h : (61 : UInt8) ∉ t) : Quiet t := by
  induction t with
  | nil => trivial
  | cons c t ih =>
    refine ⟨fun hc ↦ absurd (hc ▸ List.mem_cons_self) h, ih fun ht ↦ h (List.mem_cons_of_mem _ ht)⟩

theorem Quiet.append (ht : Quiet t) (hu : Quiet u) : Quiet (t ++ u) := by
  induction t with
  | nil => exact hu
  | cons c t ih =>
    refine ⟨fun hc ↦ ?_, ih ht.2⟩
    obtain ⟨d, hd, hne⟩ := ht.1 hc
    cases t with
    | nil => cases hd
    | cons e t => exact ⟨d, hd, hne⟩

theorem Quiet.expand (h : Quiet t) : Quiet (expand t) := by
  induction t with
  | nil => trivial
  | cons c t ih =>
    rw [Core.expand, List.flatMap_cons, ← Core.expand]
    by_cases hc : c = 10
    · rw [if_pos hc]
      exact (Quiet.of_not_mem (by decide)).append (ih h.2)
    · rw [if_neg hc]
      refine ⟨fun hc' ↦ ?_, ih h.2⟩
      obtain ⟨d, hd, hne⟩ := h.1 hc'
      cases t with
      | nil => cases hd
      | cons e t =>
        obtain rfl : e = d := Option.some.inj hd
        rw [Core.expand, List.flatMap_cons]
        by_cases he : e = 10
        · rw [if_pos he]
          exact ⟨13, rfl, by decide⟩
        · rw [if_neg he]
          exact ⟨e, rfl, hne⟩

end Reader

/-! ## Hexadecimal numbers -/

section Hex

theorem hexValue_hexDigit : ∀ b : Byte, b.toNat < 16 → hexValue (hexDigit b) = some b.toNat := by
  decide

theorem hexDigit_ne : ∀ b : Byte, hexDigit b ≠ 61 ∧ hexDigit b ≠ 10 := by decide

/-- The last `n` digits of `log_hex64`. -/
def lastDigits (value : BitVec 64) : ℕ → List UInt8
  | 0 => []
  | n + 1 => hexDigitAt value (4 * n) :: lastDigits value n

theorem hexDigits_eq (value : BitVec 64) : hexDigits value = lastDigits value 16 := rfl

theorem toNat_nibble (value : BitVec 64) (n : ℕ) :
    ((value >>> (4 * n)).setWidth 8 &&& 0x0f : Byte).toNat = value.toNat / 16 ^ n % 16 := by
  rw [BitVec.toNat_and, BitVec.toNat_setWidth, BitVec.toNat_ushiftRight, Nat.shiftRight_eq_div_pow,
    Nat.pow_mul, show (2 : ℕ) ^ 4 = 16 from rfl, show (0x0f : Byte).toNat = 2 ^ 4 - 1 from rfl,
    Nat.and_two_pow_sub_one_eq_mod]
  omega

theorem readHex_lastDigits (value : BitVec 64) (n acc : ℕ) (u : List UInt8) :
    readHex n acc (lastDigits value n ++ u) = some (acc * 16 ^ n + value.toNat % 16 ^ n) := by
  induction n generalizing acc with
  | zero => simp [readHex, Nat.mod_one]
  | succ n ih =>
    have hlt : ((value >>> (4 * n)).setWidth 8 &&& 0x0f : Byte).toNat < 16 := by
      rw [toNat_nibble]
      exact Nat.mod_lt _ (by decide)
    rw [lastDigits, List.cons_append, readHex, hexDigitAt, hexValue_hexDigit _ hlt,
      Option.bind_some, ih, toNat_nibble, Nat.pow_succ, Nat.mod_mul]
    congr 1
    ring

theorem readHex_hexDigits (value : BitVec 64) (u : List UInt8) :
    readHex 16 0 (hexDigits value ++ u) = some value.toNat := by
  rw [hexDigits_eq, readHex_lastDigits, Nat.zero_mul, Nat.zero_add,
    Nat.mod_eq_of_lt (by have := value.isLt; omega)]

theorem expand_eq_self {t : List UInt8} (h : (10 : UInt8) ∉ t) : expand t = t := by
  induction t with
  | nil => rfl
  | cons c t ih =>
    rw [expand, List.flatMap_cons, ← expand, ih fun ht ↦ h (List.mem_cons_of_mem _ ht),
      if_neg fun hc : c = 10 ↦ h (hc ▸ List.mem_cons_self), List.singleton_append]

theorem mem_hexDigits {value : BitVec 64} {c : UInt8} (h : c ∈ hexDigits value) :
    c ≠ 61 ∧ c ≠ 10 := by
  obtain ⟨k, -, hk⟩ := List.mem_flatMap.1 h
  rw [List.mem_singleton.1 hk]
  exact hexDigit_ne _

/-- **A line of the log gives its value back.** -/
theorem readValues_keyValueLine {key : List UInt8} (hkey : (61 : UInt8) ∉ untilNul key)
    (value : BitVec 64) (u : List UInt8) :
    readValues (expand (keyValueLine key value ++ u)) = value.toNat :: readValues (expand u) := by
  have hdigits : expand (hexDigits value) = hexDigits value :=
    expand_eq_self fun h ↦ (mem_hexDigits h).2 rfl
  have hquiet : Quiet (hexDigits value ++ expand [10]) :=
    (Quiet.of_not_mem fun h ↦ (mem_hexDigits h).1 rfl).append (by decide)
  have htext : expand (keyValueLine key value ++ u) = expand (untilNul key) ++
      61 :: 48 :: 120 :: (hexDigits value ++ (expand [10] ++ expand u)) := by
    rw [keyValueLine, expand_append, expand_append, expand_append, expand_append, hdigits,
      show expand (ascii "=0x") = [61, 48, 120] by decide]
    simp only [List.append_assoc, List.cons_append, List.nil_append]
  have hx : Quiet (48 :: 120 :: (hexDigits value ++ expand [10])) :=
    ⟨fun h ↦ absurd h (by decide), fun h ↦ absurd h (by decide), hquiet⟩
  rw [htext, readValues_append (Quiet.of_not_mem hkey).expand, readValues, if_pos ⟨rfl, rfl⟩,
    show List.drop 2 (48 :: 120 :: (hexDigits value ++ (expand [10] ++ expand u)))
      = hexDigits value ++ (expand [10] ++ expand u) from rfl, readHex_hexDigits,
    ← List.append_assoc, ← List.cons_append, ← List.cons_append, readValues_append hx]
  rfl

end Hex

/-! ## Decimal numbers -/

/-- The first loop of `log_dec_u32`, with room for `n` more digits in the buffer. -/
def decLoop : ℕ → UInt32 → List UInt8
  | 0, _ => []
  | n + 1, value => if value = 0 then [] else (48 + (value % 10).toUInt8) :: decLoop n (value / 10)

/-- `log_dec_u32` -/
def logDecU32 (value : UInt32) : List LogCall :=
  if value = 0 then [.putc 48] else (decLoop 11 value).reverse.map .putc

/-- The numeral that `log_dec_u32` writes. -/
def decDigits (value : UInt32) : List UInt8 :=
  if value = 0 then [48] else (decLoop 11 value).reverse

section Dec

variable {value : UInt32}

theorem toNat_digit (value : UInt32) :
    ((48 : UInt8) + (value % 10).toUInt8 - 48).toNat = value.toNat % 10 := by
  rw [UInt8.add_comm, UInt8.add_sub_cancel, UInt32.toNat_toUInt8, UInt32.toNat_mod]
  have : value.toNat % 10 < 10 := Nat.mod_lt _ (by decide)
  show value.toNat % 10 % 2 ^ 8 = _
  omega

theorem textOf_logDecU32 (value : UInt32) : textOf (logDecU32 value) = decDigits value := by
  rw [logDecU32, decDigits]
  split
  · rfl
  · rw [textOf, List.flatMap_map]
    exact List.flatMap_singleton' _

theorem mem_decLoop {n : ℕ} {c : UInt8} (h : c ∈ decLoop n value) : c ≠ 61 := by
  induction n generalizing value with
  | zero => cases h
  | succ n ih =>
    rw [decLoop] at h
    split at h
    · cases h
    · rcases List.mem_cons.1 h with rfl | h
      · intro h61
        have hd := toNat_digit value
        rw [h61] at hd
        have : value.toNat % 10 < 10 := Nat.mod_lt _ (by decide)
        have : ((61 : UInt8) - 48).toNat = 13 := rfl
        omega
      · exact ih h

theorem quiet_decDigits (value : UInt32) : Quiet (decDigits value) := by
  rw [decDigits]
  split
  · decide
  · exact .of_not_mem fun h ↦ mem_decLoop (List.mem_reverse.1 h) rfl

end Dec

/-! ## Panics -/

/-- What has stopped the kernel. -/
structure Panic where
  reason : List UInt8
  code : BitVec 64
  deriving DecidableEq

/-- The first lines of the output of `kernel_panic_at`, up to the reason. -/
def panicTitle : List LogCall :=
  [.writeln [],
    .writeln (ascii "================ MCSOS KERNEL PANIC ================"),
    .write (ascii "system="), .write (ascii "MCSOS"),
    .write (ascii " version="), .write (ascii "260502"),
    .write (ascii " milestone="), .writeln (ascii "M4"),
    .write (ascii "reason=")]

/-- The output of `kernel_panic_at`; a string may be a null pointer. -/
def panicReport (file : Option (List UInt8)) (line : UInt32) (reason : Option (List UInt8))
    (code rflags : BitVec 64) : List LogCall :=
  panicTitle ++
  [.writeln (reason.getD (ascii "<null>")),
    .write (ascii "location="),
    .write (file.getD (ascii "<unknown>")),
    .write (ascii ":")] ++
  logDecU32 line ++
  [.putc 10,
    .keyValueHex64 (ascii "panic_code") code,
    .keyValueHex64 (ascii "rflags_before_cli") rflags,
    .writeln (ascii "state=halted"),
    .writeln (ascii "====================================================")]

/-- `kernel_panic_at`, which halts the machine in the end -/
def kernelPanicAt (file : Option (List UInt8)) (line : UInt32) (reason : Option (List UInt8))
    (code rflags : BitVec 64) : EStateM Panic State Unit := do
  modify (logAll (panicReport file line reason code rflags))
  throw { reason := reason.getD (ascii "<null>"), code := code }

section Panic

/-- A text that does not look like a value of the log, not even behind an equality sign. -/
def Plain (t : List UInt8) : Prop := (61 : UInt8) ∉ untilNul t ∧ (untilNul t).head? ≠ some 48

instance : DecidablePred Plain := fun _ ↦ inferInstanceAs (Decidable (_ ∧ _))

variable {t : List UInt8}

theorem textOf_append (x y : List LogCall) : textOf (x ++ y) = textOf x ++ textOf y :=
  List.flatMap_append

/-- An assignment of a plain text. -/
theorem Plain.quiet (h : Plain t) {d : UInt8} (hd : d ≠ 48 ∧ d ≠ 61) :
    Quiet (61 :: (untilNul t ++ [d])) := by
  refine ⟨fun _ ↦ ?_, (Quiet.of_not_mem h.1).append ⟨fun h61 ↦ absurd h61 hd.2, trivial⟩⟩
  cases ht : untilNul t with
  | nil => exact ⟨d, rfl, hd.1⟩
  | cons c u => exact ⟨c, rfl, fun hc ↦ h.2 (by rw [ht, hc]; rfl)⟩

theorem readValues_expand (h : Quiet t) (u : List UInt8) :
    readValues (expand (t ++ u)) = readValues (expand u) := by
  rw [expand_append, readValues_append h.expand]

/-- The text of `panicTitle`, but for the equality sign at its end. -/
def titleText : List UInt8 :=
  ascii "\n================ MCSOS KERNEL PANIC ================\n" ++
    ascii "system=MCSOS version=260502 milestone=M4\nreason"

theorem textOf_panicTitle : textOf panicTitle = titleText ++ [61] := by decide

theorem quiet_titleText : Quiet titleText := by decide +kernel

theorem textOf_panicReport (file reason : List UInt8) (line : UInt32) (code rflags : BitVec 64) :
    textOf (panicReport (some file) line (some reason) code rflags)
      = titleText ++ ((61 :: (untilNul reason ++ [10])) ++ (ascii "location" ++
        ((61 :: (untilNul file ++ [58])) ++ (decDigits line ++ ([10] ++
        (keyValueLine (ascii "panic_code") code ++
        (keyValueLine (ascii "rflags_before_cli") rflags ++
        ascii "state=halted\n====================================================\n"))))))) := by
  have hlocation : untilNul (ascii "location=") = ascii "location" ++ [61] := by decide
  have hcolon : untilNul (ascii ":") = [58] := by decide
  have hend : untilNul (ascii "state=halted") ++ ([10] ++
      (untilNul (ascii "====================================================") ++ [10]))
        = ascii "state=halted\n====================================================\n" := by decide
  rw [← hend, panicReport, textOf_append, textOf_append, textOf_append, textOf_panicTitle,
    textOf_logDecU32]
  simp only [textOf, List.flatMap_cons, List.flatMap_nil, LogCall.text, Option.getD_some, hlocation,
    hcolon, List.append_assoc, List.append_nil, List.nil_append, List.cons_append]

/-- **A panic can be read back**: the code, and the flags at the time. -/
theorem readValues_panicReport {file reason : List UInt8} (hfile : Plain file)
    (hreason : Plain reason) (line : UInt32) (code rflags : BitVec 64) :
    readValues (expand (textOf (panicReport (some file) line (some reason) code rflags)))
      = [code.toNat, rflags.toNat] := by
  have hend : readValues (expand
      (ascii "state=halted\n====================================================\n")) = [] := by
    decide +kernel
  rw [textOf_panicReport, readValues_expand quiet_titleText,
    readValues_expand (hreason.quiet (by decide)), readValues_expand (by decide),
    readValues_expand (hfile.quiet (by decide)), readValues_expand (quiet_decDigits line),
    readValues_expand (by decide), readValues_keyValueLine (by decide),
    readValues_keyValueLine (by decide), hend]

end Panic

end Core
end Mcsos
