import BasicCheck.Proofs.LetterCase.Text
import BasicCheck.Proofs.Token.Reader

/-!
# How names are spelt

An `@` and an underscore are the small forms of nothing else, so what a text opens with decides whether
its small form opens with one of them (**`Text.head?_fold`**). Keywords open with no underscore, and
variables of the system open with an `@`. So the identifiers of a text are the names that are spelt like
none of these (**`Lexed.kind_eq_ident_iff`**), and what is spelt like an identifier is one, whatever the
case of the letters (**`Lexed.kind_eq_ident_of_folded`**).
-/

namespace BasicCheck

/-! ## 1. Signs -/

namespace Text

/-- No character beyond ASCII has a small form below the small letters of ASCII. -/
theorem le_imageIn {n : Nat} (hn : 128 ≤ n) : 97 ≤ imageIn smallRuns n := by
  unfold imageIn
  cases h : smallRuns.findSome? (·.image? n) with
  | none => exact Nat.le_trans (by decide) hn
  | some image =>
    obtain ⟨run, hrun, himage⟩ := Array.exists_of_findSome?_eq_some h
    have hall : smallRuns.all (97 ≤ ·.image) = true := by decide +kernel
    have hle : 97 ≤ run.image := of_decide_eq_true (Array.all_eq_true'.mp hall run hrun)
    unfold CaseRun.image? at himage
    split at himage
    · cases himage
      exact Nat.le_trans hle (Nat.le_add_right _ _)
    · cases himage

/-- A code that is that of no character stands for the first of all characters. -/
theorem toNat_ofNat_or (n : Nat) : (Char.ofNat n).toNat = n ∨ (Char.ofNat n).toNat = 0 := by
  by_cases hvalid : n.isValidChar
  · rw [Char.ofNat, dif_pos hvalid]
    exact Or.inl rfl
  · rw [Char.ofNat, dif_neg hvalid]
    exact Or.inr rfl

section Sign

variable {d : Char} (hd : d.isAlpha = false) (hcode : 0 < d.toNat ∧ d.toNat < 97)

include hd hcode

/-- A sign of ASCII is the small form of nothing else. -/
theorem exists_small (c : Char) : ∃ x more, small c = x :: more ∧ (x = d ↔ c = d) := by
  unfold small
  split
  · exact ⟨c.toLower, [], rfl, toLower_eq_iff hd c⟩
  · rename_i hbeyond
    have hne : c ≠ d := by
      rintro rfl
      have hlt : c.val < 128 := UInt32.lt_iff_toNat_lt.mpr (Nat.lt_trans hcode.2 (by decide))
      exact hbeyond hlt
    split
    · refine ⟨'i', _, rfl, iff_of_false ?_ hne⟩
      rintro rfl
      cases hd
    · refine ⟨_, [], rfl, iff_of_false ?_ hne⟩
      intro heq
      have hle : 97 ≤ imageIn smallRuns c.toNat :=
        le_imageIn (Nat.le_of_not_lt fun h => hbeyond (UInt32.lt_iff_toNat_lt.mpr h))
      rw [← heq] at hcode
      rcases toNat_ofNat_or (imageIn smallRuns c.toNat) with hcodes | hcodes <;> omega

/-- **What opens with a sign of ASCII** does so in small letters, and nothing else does. -/
theorem head?_fold (s : String) : (fold s).toList.head? = some d ↔ s.toList.head? = some d := by
  rw [fold, String.toList_ofList]
  cases s.toList with
  | nil => rfl
  | cons c rest =>
    rw [foldFrom]
    split
    · rename_i hsigma
      have hne : c ≠ d := by
        rintro rfl
        rw [hsigma] at hcode
        exact absurd hcode.2 (by decide)
      refine iff_of_false (fun h => ?_) fun h => hne (Option.some.inj h)
      split at h
      · cases Option.some.inj h
        exact absurd hcode.2 (by decide)
      · cases Option.some.inj h
        exact absurd hcode.2 (by decide)
    · obtain ⟨x, more, hsmall, hiff⟩ := exists_small hd hcode c
      rw [hsmall, List.cons_append, List.head?_cons, List.head?_cons, Option.some.injEq,
        Option.some.injEq]
      exact hiff

end Sign

end Text

/-! ## 2. Words -/

/-- No word that has a kind of its own opens with an underscore. -/
theorem Kind.ofWord?_of_underscore {word : String} (h : word.toList.head? = some '_') :
    ofWord? word = none := by
  have hfold := (Text.head?_fold (d := '_') (by decide) (by decide) word).mpr h
  refine (List.lookup_eq_none_iff (l := words)).mpr fun row hrow => ?_
  have hall : ∀ row ∈ words, row.1.toList.head? ≠ some '_' := by decide
  have hne : Text.fold word ≠ row.1 := fun heq => hall row hrow (heq ▸ hfold)
  simpa using hne

/-- Variables of the system open with an `@`. -/
theorem Builtin.head?_of_isSystemVariable {name : String} (h : isSystemVariable name = true) :
    name.toList.head? = some '@' := by
  refine (Text.head?_fold (d := '@') (by decide) (by decide) name).mp ?_
  have hall : ∀ name ∈ systemVariables, name.toList.head? = some '@' := by decide
  exact hall _ (List.contains_iff_mem.mp h)

/-- A word of the language, or a variable of the system. -/
def IsReserved (text : String) : Prop :=
  (Kind.ofWord? text).isSome ∨ Builtin.isSystemVariable text = true

/-- Whether a word is reserved does not depend on case. -/
theorem IsReserved.of_fold {s t : String} (h : IsReserved s) (heq : Text.fold t = Text.fold s) :
    IsReserved t := by
  unfold IsReserved Kind.ofWord? Builtin.isSystemVariable at h ⊢
  rw [heq]
  exact h

/-- **Among names the identifiers are those that are not reserved.** -/
theorem Lexeme.kind_eq_ident_iff {atStart : Bool} {first : Char} {rest : List Char}
    (h : (read atStart first rest).kind.IsName) : (read atStart first rest).kind = .ident ↔
      ¬ IsReserved (String.ofList (first :: rest.take (read atStart first rest).extra)) := by
  refine of_isName (motive := fun found => found.kind.IsName → (found.kind = .ident ↔
    ¬ IsReserved (String.ofList (first :: rest.take found.extra)))) (fun hfirst hname => ?_)
    (fun hfirst hname => ?_) h h
  · -- a name opens with a letter or an underscore, or, in the other case, with the sign of the system
    have hsystem : Builtin.isSystemVariable (String.ofList (first :: rest.takeWhile isNameChar)) ≠
        true := by
      intro hsystem
      have hhead := Builtin.head?_of_isSystemVariable hsystem
      rw [String.toList_ofList, List.head?_cons, Option.some.injEq] at hhead
      rw [hhead] at hfirst
      exact absurd hfirst (by decide +kernel)
    rw [take_extra_word, IsReserved, or_iff_left hsystem]
    unfold word at hname ⊢
    dsimp only at hname ⊢
    by_cases hunderscore : first = '_'
    · have hhead : (String.ofList (first :: rest.takeWhile isNameChar)).toList.head? = some '_' := by
        rw [String.toList_ofList, hunderscore, List.head?_cons]
      rw [if_pos hunderscore] at hname ⊢
      rw [Kind.ofWord?_of_underscore hhead]
      refine iff_of_true ?_ nofun
      split at hname
      · rename_i kind hkind
        exact absurd hname (of_lookup (p := (¬ ·.IsName)) (by decide) hkind)
      · rfl
    · rw [if_neg hunderscore]
      cases hkind : Kind.ofWord? (String.ofList (first :: rest.takeWhile isNameChar)) with
      | none => exact iff_of_true rfl nofun
      | some kind =>
        have hne : kind ≠ .ident := of_lookup (p := (· ≠ .ident)) (by decide) hkind
        exact iff_of_false hne fun hno => hno rfl
  · obtain ⟨hsystem, hkind, htake⟩ := take_extra_atName rest hname
    rw [hkind, htake, hfirst]
    exact iff_of_false nofun fun hno => hno (Or.inr hsystem)

/-! ## 3. Texts -/

/-- Among the names of a text the identifiers are those that are not reserved. -/
theorem Lexed.kind_eq_ident_iff {source : String} {file : Nat} {t : Token}
    (ht : t ∈ (ofText source file).tokens) (hname : t.kind.IsName) :
    t.kind = .ident ↔ ¬ IsReserved t.text := by
  obtain ⟨atStart, first, rest, hkind, htext, -⟩ := exists_read ht hname.ne_endOfFile
  rw [hkind] at hname
  rw [hkind, htext]
  exact Lexeme.kind_eq_ident_iff hname

/-- **An identifier is spelt like identifiers only**, whatever the case of the letters. -/
theorem Lexed.kind_eq_ident_of_folded {source : String} {file : Nat} {t w : Token}
    (ht : t ∈ (ofText source file).tokens) (hw : w ∈ (ofText source file).tokens)
    (hident : t.kind = .ident) (hname : w.kind.IsName) (heq : w.folded = t.folded) :
    w.kind = .ident := by
  refine (kind_eq_ident_iff hw hname).mpr fun hreserved => ?_
  exact (kind_eq_ident_iff ht (Or.inl hident)).mp hident (hreserved.of_fold heq.symm)

end BasicCheck
