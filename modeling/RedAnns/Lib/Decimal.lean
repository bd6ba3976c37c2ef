import Mathlib.Data.List.TakeWhile
import Mathlib.Data.Nat.Digits.Lemmas
import Mathlib.Tactic

/-!
Unsigned numbers in decimal text.

* `decimal n` is what `operator<<` writes, and `lines` one number after the other, each ended
  by a newline.
* `extract bound s old` is `operator>>` into an unsigned variable with the value `old` and the
  largest value `bound`: a stream that has failed delivers nothing, and a failure puts zero or
  the bound into the variable. Signs do not occur in what `lines` writes and are not
  accepted.
* `extract_line`: a number that fits is extracted as it was written, in front of whatever
  follows its line; `extractAll_lines` says the same of a loop that extracts until the stream
  fails.
-/

namespace RedAnns

/-! ### Writing -/

/-- The digit `d` as a character. -/
def digitChar (d : ℕ) : UInt8 := UInt8.ofNat (48 + d)

/-- A number in decimal. -/
def decimal (n : ℕ) : List UInt8 :=
  if n = 0 then [digitChar 0] else (Nat.digits 10 n).reverse.map digitChar

/-- A number and the end of its line. -/
def line (n : ℕ) : List UInt8 := decimal n ++ [10]

/-- A line for every number. -/
def lines (ns : List ℕ) : List UInt8 := ns.flatMap line

/-! ### Reading -/

/-- `isspace`. -/
def isSpace (c : UInt8) : Bool := c == 32 || (9 ≤ c.toNat && c.toNat ≤ 13)

/-- `isdigit`. -/
def isDigit (c : UInt8) : Bool := 48 ≤ c.toNat && c.toNat ≤ 57

/-- The value of a run of digits. -/
def digitsValue (ds : List UInt8) : ℕ := ds.foldl (fun v c => 10 * v + (c.toNat - 48)) 0

/-- `operator>>` into an unsigned variable: its value afterwards and the stream, `none` once
it has failed. -/
def extract (bound : ℕ) (s : Option (List UInt8)) (old : ℕ) : ℕ × Option (List UInt8) :=
  match s with
  | none => (old, none)
  | some cs =>
      let cs := cs.dropWhile isSpace
      let ds := cs.takeWhile isDigit
      if ds = [] then (0, none)
      else if digitsValue ds ≤ bound then (digitsValue ds, some (cs.dropWhile isDigit))
      else (bound, none)

/-- The loop `while (in >> temp) P.push_back(temp)`; every round takes a character, so the
length of the text is fuel enough. -/
def extractAll (bound : ℕ) : ℕ → List UInt8 → List ℕ → List ℕ
  | 0, _, P => P
  | fuel + 1, cs, P =>
      match extract bound (some cs) 0 with
      | (temp, some rest) => extractAll bound fuel rest (P ++ [temp])
      | (_, none) => P

/-! ### The round trip -/

lemma toNat_digitChar {d : ℕ} (h : d < 10) : (digitChar d).toNat = 48 + d := by
  rw [digitChar, UInt8.toNat_ofNat']
  omega

lemma isDigit_digitChar {d : ℕ} (h : d < 10) : isDigit (digitChar d) = true := by
  simp only [isDigit, toNat_digitChar h, Bool.and_eq_true, decide_eq_true_eq]
  omega

lemma isSpace_digitChar {d : ℕ} (h : d < 10) : isSpace (digitChar d) = false := by
  have hne : digitChar d ≠ 32 := fun heq => by
    have := toNat_digitChar h
    rw [heq] at this
    simp at this
    omega
  simp only [isSpace, toNat_digitChar h, beq_eq_false_iff_ne.mpr hne, Bool.false_or,
    Bool.and_eq_false_iff, decide_eq_false_iff_not]
  omega

/-- The characters of a number are digits. -/
lemma exists_of_mem_decimal {n : ℕ} {c : UInt8} (h : c ∈ decimal n) :
    ∃ d < 10, c = digitChar d := by
  rw [decimal] at h
  split_ifs at h with hn
  · exact ⟨0, by norm_num, List.mem_singleton.mp h⟩
  · obtain ⟨d, hd, rfl⟩ := List.mem_map.mp h
    exact ⟨d, Nat.digits_lt_base (by norm_num) (List.mem_reverse.mp hd), rfl⟩

lemma decimal_ne_nil (n : ℕ) : decimal n ≠ [] := by
  rw [decimal]
  split_ifs with hn
  · exact List.cons_ne_nil _ _
  · simpa [Nat.digits_eq_nil_iff_eq_zero] using hn

/-- The value of the digits of a number is the number. -/
lemma digitsValue_decimal (n : ℕ) : digitsValue (decimal n) = n := by
  rw [decimal]
  split_ifs with hn
  · rw [hn]
    rfl
  · rw [digitsValue, List.foldl_map, List.foldl_reverse]
    have hfold : ∀ l : List ℕ, (∀ d ∈ l, d < 10) →
        l.foldr (fun d v => 10 * v + ((digitChar d).toNat - 48)) 0 = Nat.ofDigits 10 l := by
      intro l hl
      induction l with
      | nil => rfl
      | cons d l ih =>
          rw [List.foldr_cons, ih fun d hd => hl d (List.mem_cons_of_mem _ hd),
            toNat_digitChar (hl d (List.mem_cons_self ..)), Nat.ofDigits_cons]
          show 10 * Nat.ofDigits 10 l + (48 + d - 48) = d + 10 * Nat.ofDigits 10 l
          omega
    rw [hfold _ fun d hd => Nat.digits_lt_base (by norm_num) hd, Nat.ofDigits_digits]

/-- **A number that fits is extracted as it was written**, behind white space and in front of
the rest of its line. -/
theorem extract_line {bound n : ℕ} (hn : n ≤ bound) {ws : List UInt8}
    (hws : ∀ c ∈ ws, isSpace c = true) (rest : List UInt8) (old : ℕ) :
    extract bound (some (ws ++ (line n ++ rest))) old = (n, some (10 :: rest)) := by
  have hdigit : ∀ c ∈ decimal n, isDigit c = true := fun c hc => by
    obtain ⟨d, hd, rfl⟩ := exists_of_mem_decimal hc
    exact isDigit_digitChar hd
  have hspace : (ws ++ (line n ++ rest)).dropWhile isSpace = line n ++ rest := by
    rw [List.dropWhile_append_of_pos hws, line, List.append_assoc]
    cases hdec : decimal n with
    | nil => exact absurd hdec (decimal_ne_nil n)
    | cons c cs =>
        obtain ⟨d, hd, rfl⟩ := exists_of_mem_decimal (hdec ▸ List.mem_cons_self .. : c ∈ decimal n)
        rw [List.cons_append, List.dropWhile_cons_of_neg (by simp [isSpace_digitChar hd])]
  have hten : isDigit 10 = false := by decide
  have htake : (line n ++ rest).takeWhile isDigit = decimal n := by
    rw [line, List.append_assoc, List.takeWhile_append_of_pos hdigit]
    simp [hten]
  have hdrop : (line n ++ rest).dropWhile isDigit = 10 :: rest := by
    rw [line, List.append_assoc, List.dropWhile_append_of_pos hdigit]
    simp [hten]
  simp only [extract, hspace, htake, hdrop, if_neg (decimal_ne_nil n), digitsValue_decimal,
    if_pos hn]

@[simp] lemma lines_nil : lines [] = [] := rfl

@[simp] lemma lines_cons (n : ℕ) (ns : List ℕ) : lines (n :: ns) = line n ++ lines ns :=
  List.flatMap_cons

/-- The number of the first line. -/
lemma extract_lines {bound n : ℕ} (hn : n ≤ bound) (ns : List ℕ) (old : ℕ) :
    extract bound (some (lines (n :: ns))) old = (n, some (10 :: lines ns)) := by
  have hnil : ∀ c ∈ ([] : List UInt8), isSpace c = true := by simp
  rw [lines_cons]
  exact extract_line hn hnil _ _

/-- The number of the next line. -/
lemma extract_next {bound n : ℕ} (hn : n ≤ bound) (ns : List ℕ) (old : ℕ) :
    extract bound (some (10 :: lines (n :: ns))) old = (n, some (10 :: lines ns)) := by
  have hten : ∀ c ∈ [(10 : UInt8)], isSpace c = true :=
    List.forall_mem_singleton.mpr (by decide)
  rw [lines_cons]
  exact extract_line hn hten _ _

/-- Nothing is extracted from white space. -/
lemma extract_space {bound : ℕ} {ws : List UInt8} (hws : ∀ c ∈ ws, isSpace c = true) (old : ℕ) :
    extract bound (some ws) old = (0, none) := by
  have hnil : ws.dropWhile isSpace = [] := List.dropWhile_eq_nil_iff.mpr hws
  simp [extract, hnil]

/-- **Lines are read back** up to the end of the text. -/
theorem extractAll_lines {bound : ℕ} {ns : List ℕ} (hns : ∀ n ∈ ns, n ≤ bound) :
    ∀ (fuel : ℕ) (ws : List UInt8) (P : List ℕ), (∀ c ∈ ws, isSpace c = true) →
      ns.length < fuel → extractAll bound fuel (ws ++ lines ns) P = P ++ ns := by
  induction ns with
  | nil =>
      intro fuel ws P hws hfuel
      obtain ⟨fuel, rfl⟩ := Nat.exists_eq_succ_of_ne_zero (Nat.ne_of_gt hfuel)
      simp only [extractAll, lines_nil, List.append_nil, extract_space hws]
  | cons n ns ih =>
      intro fuel ws P hws hfuel
      rw [List.length_cons] at hfuel
      obtain ⟨fuel, rfl⟩ := Nat.exists_eq_succ_of_ne_zero (show fuel ≠ 0 by omega)
      have hnext := ih (fun m hm => hns m (List.mem_cons_of_mem _ hm)) fuel [10] (P ++ [n])
        (List.forall_mem_singleton.mpr (by decide)) (by omega)
      rw [List.singleton_append] at hnext
      simp only [extractAll, lines_cons, extract_line (hns n (List.mem_cons_self ..)) hws, hnext]
      rw [List.append_assoc, List.singleton_append]

lemma length_le_lines (ns : List ℕ) : ns.length ≤ (lines ns).length := by
  induction ns with
  | nil => exact Nat.zero_le _
  | cons n ns ih =>
      rw [lines_cons, List.length_append, line, List.length_append, List.length_cons,
        List.length_singleton]
      omega

end RedAnns
