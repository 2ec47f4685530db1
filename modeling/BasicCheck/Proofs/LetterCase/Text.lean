import Mathlib.Data.List.Forall2
import BasicCheck.Builtin
import BasicCheck.Text.Alphabetic
import BasicCheck.Token.Kind

/-!
# Texts that differ in ASCII case

`Text.lower` makes the ASCII capitals of a text small and leaves all else as it is. Two texts are
alike if they agree character by character up to ASCII case (`Text.Alike`), and they are so exactly
if `lower` makes the same text of both (**`Text.alike_iff`**).

The small form that names are compared by is the full one of Unicode, in which a letter may look at
its neighbours. It does not tell a text from its `lower` (**`Text.fold_lower`**), and neither does
anything that is looked up by it.
-/

namespace BasicCheck.Text

/-! ## 1. Characters -/

/-- The capitals of ASCII. -/
def capitals : List Char := "ABCDEFGHIJKLMNOPQRSTUVWXYZ".toList

/-- Only the capitals of ASCII are changed. -/
theorem toLower_eq_or_mem (c : Char) : c.toLower = c ∨ c ∈ capitals := by
  by_cases h : 65 ≤ c.toNat ∧ c.toNat ≤ 90
  · right
    have hall : ∀ n < 91, 65 ≤ n → Char.ofNat n ∈ capitals := by decide
    rw [← Char.ofNat_toNat c]
    exact hall _ (by omega) h.1
  · left
    unfold Char.toLower
    split
    · rename_i hcapital
      exact absurd ⟨hcapital.1, hcapital.2⟩ h
    · rfl

/-- What is the same for the capitals of ASCII and their small letters does not depend on case. -/
theorem apply_toLower {α : Type} (f : Char → α)
    (h : capitals.map (fun c => f c.toLower) = capitals.map f) (c : Char) :
    f c.toLower = f c := by
  rcases toLower_eq_or_mem c with hsame | hcapital
  · rw [hsame]
  · exact List.map_eq_map_iff.mp h c hcapital

@[simp] theorem toLower_toLower (c : Char) : c.toLower.toLower = c.toLower :=
  apply_toLower Char.toLower (by decide) c

@[simp] theorem isAlpha_toLower (c : Char) : c.toLower.isAlpha = c.isAlpha :=
  apply_toLower Char.isAlpha (by decide) c

/-- A character that is no ASCII letter is not what any other becomes. -/
theorem toLower_eq_iff {d : Char} (hd : d.isAlpha = false) (c : Char) :
    c.toLower = d ↔ c = d := by
  rcases toLower_eq_or_mem c with hsame | hcapital
  · rw [hsame]
  · have hletter : c.isAlpha = true := List.all_eq_true.mp (by decide) c hcapital
    refine iff_of_false ?_ ?_
    · rintro rfl
      rw [isAlpha_toLower, hletter] at hd
      cases hd
    · rintro rfl
      rw [hletter] at hd
      cases hd

@[simp] theorem small_toLower (c : Char) : small c.toLower = small c :=
  apply_toLower small (by decide) c

@[simp] theorem capital_toLower (c : Char) : capital c.toLower = capital c :=
  apply_toLower capital (by decide) c

@[simp] theorem isCased_toLower (c : Char) : isCased c.toLower = isCased c :=
  apply_toLower isCased (by decide +kernel) c

@[simp] theorem isAlphabetic_toLower (c : Char) : isAlphabetic c.toLower = isAlphabetic c :=
  apply_toLower isAlphabetic (by decide) c

@[simp] theorem isDigit_toLower (c : Char) : c.toLower.isDigit = c.isDigit :=
  apply_toLower Char.isDigit (by decide) c

/-! ## 2. Sequences of characters -/

/-- What is taken and what is left of a sequence by a test that does not depend on case. -/
theorem takeWhile_toLower (p : Char → Bool)
    (h : capitals.map (fun c => p c.toLower) = capitals.map p) (cs : List Char) :
    (cs.map Char.toLower).takeWhile p = (cs.takeWhile p).map Char.toLower := by
  rw [List.takeWhile_map]
  exact congrArg (fun q => (cs.takeWhile q).map Char.toLower) (funext (apply_toLower p h))

theorem dropWhile_toLower (p : Char → Bool)
    (h : capitals.map (fun c => p c.toLower) = capitals.map p) (cs : List Char) :
    (cs.map Char.toLower).dropWhile p = (cs.dropWhile p).map Char.toLower := by
  rw [List.dropWhile_map]
  exact congrArg (fun q => (cs.dropWhile q).map Char.toLower) (funext (apply_toLower p h))

theorem all_toLower (p : Char → Bool)
    (h : capitals.map (fun c => p c.toLower) = capitals.map p) (cs : List Char) :
    (cs.map Char.toLower).all p = cs.all p := by
  rw [List.all_map]
  exact congrArg cs.all (funext (apply_toLower p h))

theorem count_toLower {d : Char} (hd : d.isAlpha = false) (cs : List Char) :
    (cs.map Char.toLower).count d = cs.count d := by
  induction cs with
  | nil => rfl
  | cons c rest ih =>
    simp only [List.map_cons, List.count_cons, ih, beq_iff_eq, toLower_eq_iff hd]

/-- A sequence without ASCII letters is not what any other becomes. -/
theorem map_toLower_eq_iff {ds : List Char} (hds : ds.all (fun d => !d.isAlpha)) (cs : List Char) :
    cs.map Char.toLower = ds ↔ cs = ds := by
  induction cs generalizing ds with
  | nil => rfl
  | cons c rest ih =>
    cases ds with
    | nil => exact iff_of_false (List.cons_ne_nil _ _) (List.cons_ne_nil _ _)
    | cons d more =>
      rw [List.all_cons, Bool.and_eq_true, Bool.not_eq_true'] at hds
      rw [List.map_cons, List.cons.injEq, List.cons.injEq, toLower_eq_iff hds.1, ih hds.2]

/-- The nearest cased letter is found in either case. -/
@[simp] theorem meetsCased_toLower (cs : List Char) :
    meetsCased (cs.map Char.toLower) = meetsCased cs := by
  unfold meetsCased
  rw [dropWhile_toLower isCaseIgnorable (by decide +kernel), List.head?_map, Option.any_map]
  exact congrArg (Option.any · _) (funext isCased_toLower)

@[simp] theorem foldFrom_toLower (before cs : List Char) :
    foldFrom (before.map Char.toLower) (cs.map Char.toLower) = foldFrom before cs := by
  induction cs generalizing before with
  | nil => rfl
  | cons c rest ih =>
    have hsigma : c.toLower = 'Σ' ↔ c = 'Σ' := toLower_eq_iff (by decide) c
    rw [List.map_cons, foldFrom, foldFrom, ← List.map_cons, ih, meetsCased_toLower,
      meetsCased_toLower, small_toLower]
    simp only [hsigma]

/-! ## 3. Texts -/

/-- The text with its ASCII capitals made small. -/
def lower (s : String) : String := String.ofList (s.toList.map Char.toLower)

@[simp] theorem toList_lower (s : String) : (lower s).toList = s.toList.map Char.toLower :=
  String.toList_ofList

theorem lower_ofList (cs : List Char) :
    lower (String.ofList cs) = String.ofList (cs.map Char.toLower) := by
  rw [lower, String.toList_ofList]

theorem lower_append (s t : String) : lower (s ++ t) = lower s ++ lower t := by
  rw [← String.toList_inj]
  simp

/-- A text without ASCII letters is not what any other becomes. -/
theorem lower_eq_iff {s t : String} (ht : t.toList.all fun c => !c.isAlpha) :
    lower s = t ↔ s = t := by
  rw [← String.toList_inj, ← String.toList_inj, toList_lower, map_toLower_eq_iff ht]

/-- **Names are compared without regard to ASCII case.** -/
@[simp] theorem fold_lower (s : String) : fold (lower s) = fold s := by
  rw [fold, fold, toList_lower]
  exact congrArg String.ofList (foldFrom_toLower [] s.toList)

@[simp] theorem capitalize_lower (s : String) : capitalize (lower s) = capitalize s := by
  rw [capitalize, capitalize, toList_lower, List.flatMap_map]
  exact congrArg (fun f => String.ofList (s.toList.flatMap f)) (funext capital_toLower)

/-- Texts that agree character by character up to ASCII case. -/
def Alike (s t : String) : Prop :=
  List.Forall₂ (fun c d => c.toLower = d.toLower) s.toList t.toList

instance (s t : String) : Decidable (Alike s t) :=
  inferInstanceAs (Decidable (List.Forall₂ _ _ _))

/-- **Alike texts are those with the same small letters.** -/
theorem alike_iff {s t : String} : Alike s t ↔ lower s = lower t := by
  rw [lower, lower, String.ofList_inj]
  unfold Alike
  generalize s.toList = cs
  generalize t.toList = ds
  constructor
  · intro h
    induction h with
    | nil => rfl
    | cons hc _ ih => rw [List.map_cons, List.map_cons, hc, ih]
  · intro h
    induction cs generalizing ds with
    | nil =>
      rw [List.map_eq_nil_iff.mp h.symm]
      exact .nil
    | cons c rest ih =>
      obtain ⟨d, more, rfl, hd, hmore⟩ := List.map_eq_cons_iff.mp h.symm
      exact .cons hd.symm (ih more hmore.symm)

end BasicCheck.Text

namespace BasicCheck

/-! ## 4. What is looked up -/

@[simp] theorem Kind.ofWord?_lower (word : String) :
    Kind.ofWord? (Text.lower word) = Kind.ofWord? word := by
  rw [ofWord?, ofWord?, Text.fold_lower]

@[simp] theorem Kind.ofUnderscoreWord?_lower (word : String) :
    Kind.ofUnderscoreWord? (Text.lower word) = Kind.ofUnderscoreWord? word := by
  rw [ofUnderscoreWord?, ofUnderscoreWord?, Text.fold_lower]

namespace Builtin

@[simp] theorem isSystemVariable_lower (name : String) :
    isSystemVariable (Text.lower name) = isSystemVariable name := by
  rw [isSystemVariable, isSystemVariable, Text.fold_lower]

end Builtin

end BasicCheck
