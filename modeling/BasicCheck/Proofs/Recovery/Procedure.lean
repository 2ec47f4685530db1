import BasicCheck.Proofs.Extent.Cover
import BasicCheck.Proofs.Recovery.Block

/-!
# Recovery in a whole text

Whatever a text is, the record of recoveries from its faults is sound at the end. So there are no more
of them than separators, and one (**`recoveries_apart`**), each fault is among the diagnostics
(`recovered_mem_diagnostics`), and where nothing was begun in an attempt that failed reading goes on
at the very next statement, unless a line was lost to the word behind a `->`
(**`lawful_of_mem_recoveries`**, `exists_lost_line`).
-/

namespace BasicCheck

namespace Grammar

open Parse

variable {s u : State} {tokens : List Token} {n : Nat}

/-! ## 1. Procedures -/

theorem minds_headerAfter (kind : ProcedureKind) :
    Minds tokens (fun _ => True) s (headerAfter kind) := by
  refine Minds.after (careful_expectIdent s) fun token u _ => ?_
  refine Minds.after (Heeds.dropped (Heeds.step (walks_trySymbols ?_))) fun _ v _ => ?_
  · cases kind <;> exact SymbolTable.follows_declare _ token _
  · refine Minds.after (careful_parameters v) fun found w _ hw => ?_
    exact hw.done.separated (fun _ => .refl w) fun x hx => ⟨hx, fun _ => Or.inl trivial⟩

theorem reaches_header (hs : Ready tokens n s) : Reaches s header fun _ u => Done tokens n u := by
  have hskip {u : State} (hu : Ready tokens n u) :
      Reaches u (discard advance) fun _ v => Ready tokens n v :=
    hu.quiet (.advance u)
  refine Reaches.bind (Q := fun _ u => Ready tokens n u)
    (hs.quiet (quiet_skipWhile _ rfl hs.orderly.regular)) fun _ u hu => Reaches.look (sees_eq u _) ?_
  cases u.current.kind == Kind.keyword .COMPILE with
  | true =>
    refine Reaches.look (nextKind_eq u) ?_
    dsimp only
    split
    · rename_i kind _
      refine (hskip hu).bind fun _ v hv => (hskip hv).bind fun _ w hw => ?_
      exact reaches_recover _ hw (minds_headerAfter kind)
    · exact (hskip hu).bind fun _ v hv =>
        reaches_recover _ hv (P := fun _ => True) (careful_failHere _ v).minds
  | false =>
    refine Reaches.look (currentKind_eq u) ?_
    dsimp only
    split
    · rename_i kind _
      exact (hskip hu).bind fun _ v hv => reaches_recover _ hv (minds_headerAfter kind)
    · exact hu.done

theorem reaches_procedure (hs : Ready tokens n s) :
    Reaches s procedure fun _ u => Done tokens n u := by
  refine (reaches_header hs).bind fun head u hu => ?_
  refine (reaches_block writes_statement (fun _ => minds_statement) .file hu).bind fun body v hv => ?_
  exact Reaches.look (p := MonadState.get) rfl ((hv.walk (walks_reportAll _)).bind fun _ _ hw => hw)

/-! ## 2. Counting -/

/-- The separators that stand no earlier than a place. -/
def separatorsFrom (tokens : List Token) (place : Place) : Nat :=
  tokens.countP fun t => t.kind.isSeparator && decide (place ≤ t.span.start)

/-- From the fault of a recovery on there is one more separator than from that of the next. -/
theorem separatorsFrom_lt {r r' : Recovery} (h : Recovery.Apart tokens r r') :
    separatorsFrom tokens r'.fault.span.start < separatorsFrom tokens r.fault.span.start := by
  obtain ⟨t, ht, hseparator, hafter, hbefore⟩ := h
  have hsplit := List.countP_eq_countP_filter_add tokens
    (fun t => t.kind.isSeparator && decide (r.fault.span.start ≤ t.span.start))
    fun t => decide (r'.fault.span.start ≤ t.span.start)
  rw [List.countP_filter, List.countP_filter] at hsplit
  have hnext : separatorsFrom tokens r'.fault.span.start ≤ tokens.countP fun t =>
      t.kind.isSeparator && decide (r.fault.span.start ≤ t.span.start) &&
        decide (r'.fault.span.start ≤ t.span.start) := by
    refine List.countP_mono_left fun t' _ ht' => ?_
    simp only [Bool.and_eq_true, decide_eq_true_eq] at ht' ⊢
    have hle : r.fault.span.start ≤ t'.span.start :=
      Place.le_trans hafter (Place.le_trans (Place.le_of_lt hbefore) ht'.2)
    exact ⟨⟨ht'.1, hle⟩, ht'.2⟩
  have hown : 0 < tokens.countP fun t =>
      t.kind.isSeparator && decide (r.fault.span.start ≤ t.span.start) &&
        !decide (r'.fault.span.start ≤ t.span.start) := by
    refine List.countP_pos_iff.mpr ⟨t, ht, ?_⟩
    simp only [Bool.and_eq_true, Bool.not_eq_true', decide_eq_true_eq, decide_eq_false_iff_not]
    exact ⟨⟨hseparator, hafter⟩, fun hle => Place.lt_irrefl _ (Place.lt_of_lt_of_le hbefore hle)⟩
  unfold separatorsFrom at *
  omega

/-- Each recovery but the last has a separator of its own. -/
theorem length_le_of_apart {rs : List Recovery} (h : rs.Pairwise (Recovery.Apart tokens)) :
    rs.length ≤ tokens.countP (·.kind.isSeparator) + 1 := by
  -- by induction on the recoveries behind the first one, which all stand behind its separator
  have hbehind (rest : List Recovery) : ∀ r, (r :: rest).Pairwise (Recovery.Apart tokens) →
      rest.length ≤ separatorsFrom tokens r.fault.span.start := by
    induction rest with
    | nil => exact fun _ _ => Nat.zero_le _
    | cons r' rest ih =>
      intro r hpairs
      have hlt := separatorsFrom_lt (List.rel_of_pairwise_cons hpairs List.mem_cons_self)
      have hle := ih r' (List.Pairwise.of_cons hpairs)
      rw [List.length_cons]
      omega
  cases rs with
  | nil => exact Nat.zero_le _
  | cons r rest =>
    have hall : separatorsFrom tokens r.fault.span.start ≤ tokens.countP (·.kind.isSeparator) :=
      List.countP_mono_left fun t _ ht => (Bool.and_eq_true_iff.mp ht).1
    rw [List.length_cons]
    exact Nat.succ_le_succ (Nat.le_trans (hbehind rest r h) hall)

end Grammar

namespace Procedure

open Parse Grammar

variable {source : String} {file : Nat}

theorem endsOnce_primary (source : String) (file : Nat) :
    EndsOnce (Lexed.ofText source file).primary := by
  intro front t behind htokens
  refine ⟨Lexed.eq_nil_of_endOfFile htokens, ?_⟩
  rintro rfl
  obtain ⟨words, place, hwords, -⟩ := Lexed.exists_primary_eq source file
  obtain ⟨-, hlast⟩ := List.append_inj' (htokens.symm.trans hwords) rfl
  rw [(List.cons.inj hlast).1]
  rfl

theorem ready_opening (source : String) (file : Nat) :
    Ready (Lexed.ofText source file).primary 0 (opening source file) where
  orderly := orderly_opening source file
  closed := endsOnce_primary source file
  suffix := List.suffix_refl _
  begun := Nat.le_refl 0
  apart := List.Pairwise.nil
  lawful := List.forall_mem_nil _
  reported := List.forall_mem_nil _
  settled := List.forall_mem_nil _

/-- At the end of a text its record of recoveries is sound. -/
theorem sound_readText (source : String) (file : Nat) :
    Sound (Lexed.ofText source file).primary 0 (readText source file).2 :=
  (reaches_procedure (ready_opening source file) : Done _ _ _).toSound

/-- What is recovered from is reported. -/
theorem recovered_mem_diagnostics {r : Recovery}
    (hr : r ∈ (readText source file).2.recoveries.toList) :
    .ofFault r.fault ∈ (ofText source file).diagnostics := by
  have hmem := (sound_readText source file).reported r hr
  simpa only [ofText, ofTokens, readText, List.mem_mergeSort] using hmem

/-- **Between any two faults that are recovered from a separator stands**, so that there are no more
    of them than separators, and one. -/
theorem recoveries_apart (source : String) (file : Nat) :
    (readText source file).2.recoveries.toList.Pairwise
        (Recovery.Apart (Lexed.ofText source file).primary) ∧
      (readText source file).2.recoveries.size ≤
        (Lexed.ofText source file).primary.countP (·.kind.isSeparator) + 1 := by
  have hapart := (sound_readText source file).apart
  exact ⟨hapart, Array.length_toList ▸ length_le_of_apart hapart⟩

/-- **Reading goes on at the next statement** behind an attempt that failed without having begun an
    arm, a loop or a choice, unless a line was lost to the word behind a `->`. -/
theorem lawful_of_mem_recoveries {r : Recovery}
    (hr : r ∈ (readText source file).2.recoveries.toList) (hbegun : r.begun = false) : r.Lawful :=
  (sound_readText source file).lawful r hr hbegun

/-- A line without a value, and a sound one. -/
def brokenText : String := "x = \ny = 2\n"

/-- Reading goes on behind a line without a value. -/
theorem lawful_of_broken : ∃ r, r ∈ (readText brokenText 0).2.recoveries.toList ∧
    r.begun = false ∧ r.Lawful := by
  have hone : (readText brokenText 0).2.recoveries.toList.map (·.begun) = [false] := by
    decide +kernel
  obtain ⟨r, hlist, hbegun⟩ := List.map_eq_singleton_iff.mp hone
  have hr : r ∈ (readText brokenText 0).2.recoveries.toList := by
    rw [hlist]
    exact List.mem_singleton_self r
  exact ⟨r, hr, hbegun, lawful_of_mem_recoveries hr hbegun⟩

/-- A line that ends with a `->`, and a sound one. -/
def danglingText : String := "x = a->\ny = 2\n"

/-- Reading does not always go on at the next statement: the separator behind a `->` is lost, and the
    next line with it. -/
theorem exists_lost_line : ¬ ∀ (source : String) (file : Nat),
    ∀ r ∈ (readText source file).2.recoveries.toList, r.begun = false → Resumes r.before r.after := by
  intro h
  have hone : (readText danglingText 0).2.recoveries.toList.map (fun r =>
      (r.begun, r.before.countP (·.kind.isSeparator), r.after.countP (·.kind.isSeparator))) =
      [(false, 2, 0)] := by
    decide +kernel
  obtain ⟨r, hlist, hcounts⟩ := List.map_eq_singleton_iff.mp hone
  have hr : r ∈ (readText danglingText 0).2.recoveries.toList := by
    rw [hlist]
    exact List.mem_singleton_self r
  have hle := (h danglingText 0 r hr (congrArg (·.1) hcounts)).countP_le
  have hbefore : r.before.countP (·.kind.isSeparator) = 2 := congrArg (·.2.1) hcounts
  have hafter : r.after.countP (·.kind.isSeparator) = 0 := congrArg (·.2.2) hcounts
  omega

end Procedure

end BasicCheck
