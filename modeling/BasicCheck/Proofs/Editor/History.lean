import BasicCheck.Editor.Workspace

/-!
# Histories of open documents

What is open after a number of events, whatever these are and in whatever order they come. Each
document is what the last event about it that took effect made of it (`Workspace.get?_of_latest`),
and no other event has a say in it (`Workspace.get?_apply_of_ne`). A file number belongs to one
document without a break: if two open documents have the same number at any two moments, they are the
same document, and it was open all the time between (`Workspace.owned`).

Main statement: **`Workspace.histories`**.
-/

namespace BasicCheck.Editor.Workspace

/-! ## 1. Events -/

namespace Event

/-- The document that an event is about. -/
def uri : Event → String
  | .open uri _ _ | .update uri _ _ | .close uri => uri

/-- Whether an event takes effect where some documents are open: an update does if its document is
    not open or an earlier version of it is, all other events always do. -/
def TakesEffect (w : Workspace) : Event → Prop
  | .update uri _ version => ∀ document, w.get? uri = some document → document.version < version
  | .open _ _ _ | .close _ => True

/-- What an event that takes effect makes of its document. -/
def outcome (w : Workspace) : Event → Option Document
  | .open uri text version | .update uri text version =>
    some ⟨version, .ofText text (w.fileOf uri)⟩
  | .close _ => none

end Event

variable {w : Workspace} {e : Event} {uri other : String} {document : Document}

/-- An event that takes effect decides what becomes of its document. -/
theorem get?_apply_of_takesEffect (h : e.TakesEffect w) :
    (w.apply e).get? e.uri = e.outcome w := by
  cases e with
  | «open» uri text version => exact (get?_openDocument w uri text version uri).trans (if_pos rfl)
  | update uri text version =>
    exact (get?_updateDocument w uri text version uri).trans (if_pos ⟨rfl, h⟩)
  | close uri => exact (get?_closeDocument w uri uri).trans (if_pos rfl)

/-- An event that takes no effect changes nothing. -/
theorem apply_of_not_takesEffect (h : ¬ e.TakesEffect w) : w.apply e = w := by
  cases e with
  | «open» uri text version => exact absurd trivial h
  | update uri text version =>
    have hstale : (w.get? uri).any (version ≤ ·.version) = true := by
      simpa [Event.TakesEffect, Option.any_eq_true] using h
    exact if_pos hstale
  | close uri => exact absurd trivial h

/-- An event leaves all documents but its own as they are. -/
theorem get?_apply_of_ne (h : e.uri ≠ other) : (w.apply e).get? other = w.get? other := by
  cases e with
  | «open» uri text version => exact (get?_openDocument w uri text version other).trans (if_neg h)
  | update uri text version =>
    exact (get?_updateDocument w uri text version other).trans (if_neg fun hboth => h hboth.1)
  | close uri => exact (get?_closeDocument w uri other).trans (if_neg h)

/-! ## 2. Moments of a history -/

/-- What is open after the first `n` of some events. -/
def after (events : List Event) (n : Nat) : Workspace := empty.run (events.take n)

/-- The last event about a document that took effect, and its position in a history. -/
structure Latest (events : List Event) (uri : String) (n : Nat) (e : Event) : Prop where
  there : events[n]? = some e
  about : e.uri = uri
  effective : e.TakesEffect (after events n)
  last : ∀ m e', n < m → events[m]? = some e' → e'.uri = uri → ¬ e'.TakesEffect (after events m)

variable {events : List Event} {m n : Nat}

theorem after_length (events : List Event) : after events events.length = empty.run events := by
  rw [after, List.take_length]

theorem after_succ_of_getElem? (h : events[n]? = some e) :
    after events (n + 1) = (after events n).apply e := by
  unfold after run
  rw [List.take_add_one, h, Option.toList_some, List.foldl_append]
  rfl

theorem after_succ_of_none (h : events[n]? = none) : after events (n + 1) = after events n := by
  unfold after
  rw [List.take_add_one, h, Option.toList_none, List.append_nil]

/-- A document stays as it is while no event about it takes effect. -/
theorem get?_after_of_idle (hle : n ≤ m) (hidle : ∀ k e, n ≤ k → k < m → events[k]? = some e →
    e.uri = uri → ¬ e.TakesEffect (after events k)) :
    (after events m).get? uri = (after events n).get? uri := by
  induction hle with
  | refl => rfl
  | @step m hle ih =>
    have hbefore := ih fun k e hk hlt => hidle k e hk (Nat.lt_succ_of_lt hlt)
    cases hevent : events[m]? with
    | none => rw [after_succ_of_none hevent, hbefore]
    | some e =>
      rw [after_succ_of_getElem? hevent, ← hbefore]
      by_cases huri : e.uri = uri
      · have hno := hidle m e hle (Nat.lt_succ_self m) hevent huri
        rw [apply_of_not_takesEffect hno]
      · exact get?_apply_of_ne huri

/-- **A document is what the last event that took effect on it** made of it. -/
theorem get?_of_latest (h : Latest events uri n e) :
    (empty.run events).get? uri = e.outcome (after events n) := by
  obtain ⟨hn, -⟩ := List.getElem?_eq_some_iff.mp h.there
  have hidle : (after events events.length).get? uri = (after events (n + 1)).get? uri :=
    get?_after_of_idle hn fun k e' hk _ => h.last k e' hk
  rw [← after_length, hidle, after_succ_of_getElem? h.there, ← h.about]
  exact get?_apply_of_takesEffect h.effective

/-- As long as no event about it takes effect, a document is not open. -/
theorem get?_of_idle (h : ∀ n (e : Event), events[n]? = some e → e.uri = uri →
    ¬ e.TakesEffect (after events n)) : (empty.run events).get? uri = none := by
  rw [← after_length, get?_after_of_idle (Nat.zero_le _) fun k e _ _ => h k e]
  exact Std.ExtTreeMap.getElem?_empty

/-- If any event took effect on a document, there is a last one that did. -/
theorem exists_latest {n : Nat} {e : Event} (hevent : events[n]? = some e) (huri : e.uri = uri)
    (heffect : e.TakesEffect (after events n)) : ∃ m e', Latest events uri m e' := by
  by_cases hlast : ∃ m e', n < m ∧ events[m]? = some e' ∧ e'.uri = uri ∧
      e'.TakesEffect (after events m)
  · obtain ⟨m, e', hlt, hevent', huri', heffect'⟩ := hlast
    obtain ⟨hm, -⟩ := List.getElem?_eq_some_iff.mp hevent'
    exact exists_latest hevent' huri' heffect'
  · exact ⟨n, e, hevent, huri, heffect, fun m e' hlt hevent' huri' heffect' =>
      hlast ⟨m, e', hlt, hevent', huri', heffect'⟩⟩
termination_by events.length - n

/-! ## 3. File numbers -/

/-- The file number of an open document. -/
def file? (w : Workspace) (uri : String) : Option Nat := (w.get? uri).map (·.procedure.file)

theorem lastFile_le_openDocument (w : Workspace) (uri text : String) (version : Int) :
    w.lastFile ≤ (w.openDocument uri text version).lastFile := by
  unfold openDocument
  dsimp only
  split <;> omega

/-- Numbers are given in increasing order. -/
theorem lastFile_le_apply (w : Workspace) (e : Event) : w.lastFile ≤ (w.apply e).lastFile := by
  cases e with
  | «open» uri text version => exact lastFile_le_openDocument w uri text version
  | update uri text version =>
    show _ ≤ (w.updateDocument uri text version).lastFile
    unfold updateDocument
    split
    · exact Nat.le_refl _
    · exact lastFile_le_openDocument w uri text version
  | close uri => exact Nat.le_refl _

variable {file : Nat}

theorem file?_openDocument {text : String} {version : Int}
    (h : (w.openDocument uri text version).file? other = some file) :
    w.file? other = some file ∨ w.file? other = none ∧ other = uri ∧
      file = (w.openDocument uri text version).lastFile ∧ file = w.lastFile + 1 := by
  unfold file? at h
  rw [get?_openDocument] at h
  split at h
  · rename_i heq
    subst heq
    have hfile : w.fileOf uri = file := Option.some.inj h
    unfold fileOf at hfile
    unfold file? openDocument
    cases hopen : w.get? uri with
    | some document =>
      rw [hopen] at hfile
      exact Or.inl (congrArg some hfile)
    | none =>
      rw [hopen] at hfile
      exact Or.inr ⟨rfl, rfl, hfile.symm, hfile.symm⟩
  · exact Or.inl h

/-- The number of an open document was its number before, or the document was not open and its number
    is the next one. -/
theorem file?_apply (h : (w.apply e).file? other = some file) :
    w.file? other = some file ∨ w.file? other = none ∧ other = e.uri ∧
      file = (w.apply e).lastFile ∧ file = w.lastFile + 1 := by
  cases e with
  | «open» uri text version => exact file?_openDocument h
  | update uri text version =>
    by_cases heffect : (Event.update uri text version).TakesEffect w
    · have hnewer : ¬ (w.get? uri).any (version ≤ ·.version) = true := by
        simpa [Event.TakesEffect, Option.any_eq_true] using heffect
      have hopened : w.apply (.update uri text version) = w.openDocument uri text version :=
        if_neg hnewer
      rw [hopened] at h ⊢
      exact file?_openDocument h
    · rw [apply_of_not_takesEffect heffect] at h
      exact Or.inl h
  | close uri =>
    have hclose : (w.closeDocument uri).file? other = some file := h
    unfold file? at hclose
    rw [get?_closeDocument] at hclose
    split at hclose
    · cases hclose
    · exact Or.inl hclose

/-- The numbers of open documents differ from one another, and none is beyond the last that was
    given. -/
structure Numbered (w : Workspace) : Prop where
  le : ∀ {uri file}, w.file? uri = some file → file ≤ w.lastFile
  eq : ∀ {uri other file}, w.file? uri = some file → w.file? other = some file → uri = other

theorem file?_empty (uri : String) : empty.file? uri = none := by
  have hnone : empty.get? uri = none := Std.ExtTreeMap.getElem?_empty
  rw [file?, hnone, Option.map_none]

theorem numbered_empty : Numbered empty where
  le {uri file} h := by rw [file?_empty] at h; cases h
  eq {uri other file} h _ := by rw [file?_empty] at h; cases h

/-- **Every event keeps the numbers apart.** -/
theorem Numbered.apply (h : Numbered w) (e : Event) : Numbered (w.apply e) where
  le {uri file} hfile := by
    rcases file?_apply hfile with hold | ⟨-, -, hlast, -⟩
    · exact Nat.le_trans (h.le hold) (lastFile_le_apply w e)
    · exact Nat.le_of_eq hlast
  eq {uri other file} hfile hother := by
    rcases file?_apply hfile with hold | ⟨-, huri, -, hnext⟩
    · rcases file?_apply hother with hold' | ⟨-, -, -, hnext⟩
      · exact h.eq hold hold'
      · have hle := h.le hold
        omega
    · rcases file?_apply hother with hold' | ⟨-, hother', -, -⟩
      · have hle := h.le hold'
        omega
      · rw [huri, hother']

/-! ### Through a history -/

theorem after_succ (events : List Event) (n : Nat) :
    after events (n + 1) = after events n ∨ ∃ e, after events (n + 1) = (after events n).apply e := by
  cases hevent : events[n]? with
  | none => exact Or.inl (after_succ_of_none hevent)
  | some e => exact Or.inr ⟨e, after_succ_of_getElem? hevent⟩

theorem numbered_after (events : List Event) (n : Nat) : Numbered (after events n) := by
  induction n with
  | zero => exact numbered_empty
  | succ n ih =>
    rcases after_succ events n with heq | ⟨e, heq⟩
    · rwa [heq]
    · rw [heq]
      exact ih.apply e

theorem lastFile_le_after (hle : n ≤ m) : (after events n).lastFile ≤ (after events m).lastFile := by
  induction hle with
  | refl => exact Nat.le_refl _
  | @step m hle ih =>
    rcases after_succ events m with heq | ⟨e, heq⟩
    · rwa [heq]
    · rw [heq]
      exact Nat.le_trans ih (lastFile_le_apply _ e)

/-- **A document keeps its number** while it stays open. -/
theorem file?_of_open (hle : n ≤ m) (hfile : (after events n).file? uri = some file)
    (hopen : ∀ k, n ≤ k → k ≤ m → ((after events k).get? uri).isSome) :
    (after events m).file? uri = some file := by
  induction hle with
  | refl => exact hfile
  | @step m hle ih =>
    have hbefore := ih fun k hk hkm => hopen k hk (Nat.le_succ_of_le hkm)
    obtain ⟨document, hdocument⟩ := Option.isSome_iff_exists.mp
      (hopen (m + 1) (Nat.le_succ_of_le hle) (Nat.le_refl _))
    have hnow : (after events (m + 1)).file? uri = some document.procedure.file := by
      rw [file?, hdocument, Option.map_some]
    rcases after_succ events m with heq | ⟨e, heq⟩
    · rwa [heq]
    · rw [heq] at hnow ⊢
      rcases file?_apply hnow with hold | ⟨hnone, -⟩
      · rw [hnow, ← hold, hbefore]
      · rw [hnone] at hbefore
        cases hbefore

/-- **A number belongs to one document without a break.** -/
theorem owned (hle : n ≤ m) (hfile : (after events n).file? uri = some file)
    (hother : (after events m).file? other = some file) :
    other = uri ∧ ∀ k, n ≤ k → k ≤ m → (after events k).file? uri = some file := by
  induction hle with
  | refl =>
    refine ⟨(numbered_after events n).eq hother hfile, fun k hk hkn => ?_⟩
    rw [Nat.le_antisymm hkn hk, hfile]
  | @step m hle ih =>
    have hbefore : (after events m).file? other = some file := by
      rcases after_succ events m with heq | ⟨e, heq⟩
      · rwa [heq] at hother
      · rw [heq] at hother
        rcases file?_apply hother with hold | ⟨-, -, -, hnext⟩
        · exact hold
        · -- a number that is given now is beyond all that were given before
          have hgiven := (numbered_after events n).le hfile
          have hmono : (after events n).lastFile ≤ (after events m).lastFile :=
            lastFile_le_after hle
          omega
    obtain ⟨rfl, hall⟩ := ih hbefore
    refine ⟨rfl, fun k hk hkm => ?_⟩
    rcases Nat.lt_or_eq_of_le hkm with hlt | rfl
    · exact hall k hk (Nat.le_of_lt_succ hlt)
    · exact hother

/-! ## 4. Histories -/

/-- **Histories.** Whatever events come in whatever order: a document is what the last event about it
    that took effect made of it, and it is not open if there is none; an event leaves all documents
    but its own as they are; a document keeps its file number while it stays open; and a number that
    a document has at two moments, or two documents have, is the number of one document that is open
    all the time between, so that open documents have different numbers and none is given again
    after its document was closed. -/
theorem histories (events : List Event) :
    (∀ uri n e, Latest events uri n e →
      (empty.run events).get? uri = e.outcome (after events n)) ∧
    (∀ uri, (∀ n e, ¬ Latest events uri n e) → (empty.run events).get? uri = none) ∧
    (∀ n e other, events[n]? = some e → e.uri ≠ other →
      (after events (n + 1)).get? other = (after events n).get? other) ∧
    (∀ n m uri file, n ≤ m → (after events n).file? uri = some file →
      (∀ k, n ≤ k → k ≤ m → ((after events k).get? uri).isSome) →
      (after events m).file? uri = some file) ∧
    (∀ n m uri other file, n ≤ m → (after events n).file? uri = some file →
      (after events m).file? other = some file →
      other = uri ∧ ∀ k, n ≤ k → k ≤ m → (after events k).file? uri = some file) := by
  refine ⟨fun uri n e => get?_of_latest, fun uri hnone => ?_, fun n e other hevent hne => ?_,
    fun n m uri file => file?_of_open, fun n m uri other file => owned⟩
  · refine get?_of_idle fun n e hevent huri heffect => ?_
    obtain ⟨m, e', hlatest⟩ := exists_latest hevent huri heffect
    exact hnone m e' hlatest
  · rw [after_succ_of_getElem? hevent]
    exact get?_apply_of_ne hne

end BasicCheck.Editor.Workspace
