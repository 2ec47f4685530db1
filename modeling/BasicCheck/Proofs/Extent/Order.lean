import BasicCheck.Proofs.Grammar.Procedure
import BasicCheck.Proofs.Token.Order

/-!
# Places on the way

While tokens that stand in order are read, the place where the next token starts (`here`) and the
place where the token read last stops (`behind`) only ever move on, also where a token `>=` is half
read. A span lies between two states if it starts no earlier than the token that came next and stops
no later than the token that was read last (`Lies`); what was read between states in the middle lies
between the outer ones (**`Lies.widen`**).
-/

namespace BasicCheck

/-- The text of a token tells where it stops. -/
def Token.Measured (t : Token) : Prop := t.span.stop = t.span.start.after t.text.toList

theorem Token.Measured.start_le_stop {t : Token} (h : t.Measured) : t.span.start ≤ t.span.stop := by
  rw [h]
  exact Place.le_after _ _

theorem Lexed.measured_of_mem_primary {source : String} {file : Nat} {t : Token}
    (ht : t ∈ (ofText source file).primary) : t.Measured := by
  have hmem : t ∈ (ofText source file).tokens := List.mem_of_mem_filter ht
  rcases List.mem_append.mp hmem with hin | hin
  · obtain ⟨text, fault, -, htext, start, hspan⟩ := Piece.exists_lexeme_of_mem_tokensFrom hin
    rw [Token.Measured, htext, hspan, String.toList_ofList]
  · rw [List.mem_singleton.mp hin]
    rfl

/-- One span lies within another. -/
def Span.Within (a b : Span) : Prop := b.start ≤ a.start ∧ a.stop ≤ b.stop

theorem Span.Within.refl (a : Span) : a.Within a := ⟨Place.le_refl _, Place.le_refl _⟩

theorem Span.Within.trans {a b c : Span} (h : a.Within b) (g : b.Within c) : a.Within c :=
  ⟨Place.le_trans g.1 h.1, Place.le_trans h.2 g.2⟩

theorem Span.within_join_left (a b : Span) : a.Within (a.join b) :=
  ⟨(start_join_le a b).1, (le_stop_join a b).1⟩

theorem Span.within_join_right (a b : Span) : b.Within (a.join b) :=
  ⟨(start_join_le a b).2, (le_stop_join a b).2⟩

namespace Grammar

open Parse

variable {o s u v : State} {t : Token}

/-! ## 1. States in order -/

/-- The tokens from the one read last on stand in order, and what ends the file stands behind them. -/
structure Orderly (s : State) : Prop where
  regular : s.Regular
  order : InOrder (s.last.toList ++ s.rest.tokens)
  measured : ∀ t ∈ s.last.toList ++ s.rest.tokens, t.Measured ∧ t.span.stop ≤ s.eof.span.start

/-- What was read last and what is unread was so before. -/
theorem Reads.sublist {read : List Token} (h : Reads s read u) :
    (u.last.toList ++ u.rest.tokens).Sublist (s.last.toList ++ s.rest.tokens) := by
  rw [h.last, h.tokens]
  rcases List.eq_nil_or_concat read with rfl | ⟨front, t, rfl⟩
  · exact List.Sublist.refl _
  · rw [List.concat_eq_append, List.getLast?_append, List.getLast?_singleton, Option.some_or,
      Option.some_or, List.append_assoc]
    exact (List.sublist_append_right front _).trans (List.sublist_append_right _ _)

theorem Orderly.past (hs : Orderly s) (h : Past s u) : Orderly u := by
  obtain ⟨read, hread⟩ := h.reads
  have hsub := hread.sublist
  refine ⟨h.regular hs.regular, hs.order.sublist hsub, fun t ht => ?_⟩
  rw [h.eof]
  exact hs.measured t (hsub.subset ht)

theorem Orderly.enter (hs : Orderly s) : Orderly s.enter :=
  ⟨⟨hs.regular.ended, hs.regular.half⟩, hs.order, hs.measured⟩

/-- On the way some token is read, or none; then at most the rest of one that was half read. -/
theorem Past.reached (h : Past s u) : (∃ t ∈ s.rest.tokens, u.last = some t) ∨
    u.last = s.last ∧ u.rest.tokens = s.rest.tokens ∧ (u.split = s.split ∨ u.split = none) := by
  obtain ⟨read, hread⟩ := h.reads
  rcases List.eq_nil_or_concat read with rfl | ⟨front, t, rfl⟩
  · exact Or.inr ⟨hread.last, hread.tokens.symm, hread.split rfl⟩
  · refine Or.inl ⟨t, ?_, ?_⟩
    · rw [hread.tokens]
      simp
    · rw [hread.last]
      simp

/-- A token `>=` that is half read takes two columns of its line. -/
theorem Orderly.half (hs : Orderly s) {whole : Token} (h : s.split = some whole) :
    s.last = some whole ∧
      whole.span.stop = ⟨whole.span.start.line, whole.span.start.column + 2⟩ := by
  obtain ⟨hlast, -, htext⟩ := hs.regular.half h
  have hmem : whole ∈ s.last.toList ++ s.rest.tokens := by
    rw [hlast]
    exact List.mem_append_left _ (List.mem_singleton_self _)
  refine ⟨hlast, ?_⟩
  rw [(hs.measured whole hmem).1, htext]
  rfl

/-! ## 2. Places -/

/-- Where the next token starts. -/
def here (s : State) : Place := s.current.span.start

/-- Where the token that was read last stops. -/
def behind (s : State) : Place := s.previous.span.stop

/-- What was read last stops before anything that is unread starts. -/
theorem Orderly.stop_le (hs : Orderly s) (hlast : s.last = some t) {r : Token}
    (hr : r ∈ s.rest.tokens) : t.span.stop ≤ r.span.start := by
  have horder := hs.order
  rw [hlast] at horder
  exact ((List.pairwise_append.mp horder).2.2 t (List.mem_singleton_self _) r hr).2

theorem Orderly.stop_le_eof (hs : Orderly s) (hlast : s.last = some t) :
    t.span.stop ≤ s.eof.span.start := by
  refine (hs.measured t ?_).2
  rw [hlast]
  exact List.mem_append_left _ (List.mem_singleton_self _)

/-- No unread token starts earlier than the next one. -/
theorem Orderly.here_le (hs : Orderly s) :
    (∀ r ∈ s.rest.tokens, here s ≤ r.span.start) ∧ here s ≤ s.eof.span.start := by
  unfold here State.current
  cases hsplit : s.split with
  | some whole =>
    obtain ⟨hlast, hstop⟩ := hs.half hsplit
    have hle : (equalHalf whole).span.start ≤ whole.span.stop := by
      rw [hstop]
      exact Or.inr ⟨rfl, Nat.le_succ _⟩
    exact ⟨fun r hr => Place.le_trans hle (hs.stop_le hlast hr),
      Place.le_trans hle (hs.stop_le_eof hlast)⟩
  | none =>
    cases hrest : s.rest.tokens with
    | nil => exact ⟨fun r hr => absurd hr List.not_mem_nil, Place.le_refl _⟩
    | cons next rest =>
      have horder : InOrder (next :: rest) := by
        have hall := (List.pairwise_append.mp hs.order).2.1
        rwa [hrest] at hall
      have hnext := hs.measured next (by simp [hrest])
      refine ⟨fun r hr => ?_, Place.le_trans hnext.1.start_le_stop hnext.2⟩
      rcases List.mem_cons.mp hr with rfl | hr
      · exact Place.le_refl _
      · exact Place.le_of_lt (List.rel_of_pairwise_cons horder hr).1

/-- Where a token was read last, what comes next stands behind it. -/
theorem Orderly.previous (hs : Orderly s) (hlast : s.last = some t) :
    s.previous.span.start = t.span.start ∧ t.span.start ≤ behind s ∧ behind s ≤ t.span.stop ∧
      behind s ≤ here s := by
  unfold behind here State.previous State.current
  cases hsplit : s.split with
  | some whole =>
    obtain ⟨hlast', hstop⟩ := hs.half hsplit
    obtain rfl : whole = t := Option.some.inj (hlast'.symm.trans hlast)
    refine ⟨rfl, Or.inr ⟨rfl, Nat.le_succ _⟩, ?_, Or.inr ⟨rfl, Nat.le_refl _⟩⟩
    rw [hstop]
    exact Or.inr ⟨rfl, Nat.le_succ _⟩
  | none =>
    have ht := hs.measured t (by simp [hlast])
    rw [hlast]
    refine ⟨rfl, ht.1.start_le_stop, Place.le_refl _, ?_⟩
    cases hrest : s.rest.tokens with
    | nil => exact ht.2
    | cons next rest => exact hs.stop_le hlast (by rw [hrest]; exact List.mem_cons_self)

/-- **The next token moves on.** -/
theorem Past.here_le (h : Past s u) (hs : Orderly s) : here s ≤ here u := by
  obtain ⟨hmem, heof⟩ := hs.here_le
  rcases h.reached with ⟨t, ht, hlast⟩ | ⟨-, hrest, hsplit | hsplit⟩
  · obtain ⟨-, hstart, -, hnext⟩ := (hs.past h).previous hlast
    exact Place.le_trans (hmem t ht) (Place.le_trans hstart hnext)
  · have hsame : u.current = s.current := by
      unfold State.current
      rw [hsplit, hrest, h.eof]
    unfold here
    rw [hsame]
    exact Place.le_refl _
  · have hu : u.current = s.rest.tokens.headD s.eof := by
      unfold State.current
      rw [hsplit, hrest, h.eof]
    rw [show here u = _ from congrArg (·.span.start) hu]
    cases hcons : s.rest.tokens with
    | nil => exact heof
    | cons next rest => exact hmem next (by rw [hcons]; exact List.mem_cons_self)

/-- **What was read last moves on.** -/
theorem Past.behind_le (h : Past s u) (hs : Orderly s) (hsome : s.last.isSome) : u.last.isSome ∧
    s.previous.span.start ≤ u.previous.span.start ∧ behind s ≤ behind u := by
  obtain ⟨t, hlast⟩ := Option.isSome_iff_exists.mp hsome
  obtain ⟨hstart, hroom, hstop, hnext⟩ := hs.previous hlast
  rcases h.reached with ⟨t', ht', hlast'⟩ | ⟨hlast', hrest, hsplit⟩
  · obtain ⟨hstart', hroom', -, -⟩ := (hs.past h).previous hlast'
    have hbetween : behind s ≤ t'.span.start := Place.le_trans hnext (hs.here_le.1 t' ht')
    refine ⟨by rw [hlast']; rfl, ?_, Place.le_trans hbetween hroom'⟩
    rw [hstart, hstart']
    exact Place.le_trans hroom hbetween
  · rw [hlast] at hlast'
    obtain ⟨hstart', -, -, -⟩ := (hs.past h).previous hlast'
    refine ⟨by rw [hlast']; rfl, by rw [hstart, hstart']; exact Place.le_refl _, ?_⟩
    rcases hsplit with hsame | hwhole
    · have hsame' : u.previous = s.previous := by
        unfold State.previous State.current
        rw [hsame, hlast', hlast, hrest, h.eof]
      unfold behind
      rw [hsame']
      exact Place.le_refl _
    · have hu : behind u = t.span.stop := by
        unfold behind State.previous
        rw [hwhole, hlast']
        rfl
      rw [hu]
      exact hstop

/-! ## 3. Spans between states -/

/-- A span lies between two states. -/
structure Lies (span : Span) (s u : State) : Prop where
  some : u.last.isSome
  start : here s ≤ span.start
  room : span.start ≤ span.stop
  stop : span.stop ≤ behind u
  /-- What was read last was read behind the first of the states. -/
  since : here s ≤ u.previous.span.start

namespace Lies

variable {a b : Span}

/-- **What lies between states in the middle lies between the outer ones.** -/
theorem widen (ho : Orderly o) (before : Past o s) (h : Lies a s u) (after : Past u v)
    (hu : Orderly u) : Lies a o v := by
  obtain ⟨hsome, hprevious, hbehind⟩ := after.behind_le hu h.some
  have hhere := before.here_le ho
  exact ⟨hsome, Place.le_trans hhere h.start, h.room, Place.le_trans h.stop hbehind,
    Place.le_trans hhere (Place.le_trans h.since hprevious)⟩

/-- What was read last. -/
theorem previous (h : Lies a s u) (hu : Orderly u) : Lies u.previous.span s u := by
  obtain ⟨t, hlast⟩ := Option.isSome_iff_exists.mp h.some
  obtain ⟨hstart, hroom, -, -⟩ := hu.previous hlast
  refine ⟨h.some, h.since, ?_, Place.le_refl _, h.since⟩
  rw [hstart]
  exact hroom

theorem join (h : Lies a s u) (g : Lies b s u) : Lies (a.join b) s u where
  some := h.some
  start := by
    unfold Span.join
    dsimp only
    split
    · exact h.start
    · exact g.start
  room := Place.le_trans (Span.start_join_le a b).1 (Place.le_trans h.room (Span.le_stop_join a b).1)
  stop := by
    unfold Span.join
    dsimp only
    split
    · exact h.stop
    · exact g.stop
  since := h.since

/-- What follows a span lies within the span that reaches from it to what was read last. -/
theorem within_join {m : State} (h : Lies a s m) (hm : Orderly m) (g : Lies b m u) :
    b.Within (a.join u.previous.span) := by
  obtain ⟨t, hlast⟩ := Option.isSome_iff_exists.mp h.some
  obtain ⟨-, -, -, hnext⟩ := hm.previous hlast
  have hstart : a.start ≤ b.start :=
    Place.le_trans h.room (Place.le_trans h.stop (Place.le_trans hnext g.start))
  exact ⟨Place.le_trans (Span.start_join_le _ _).1 hstart,
    Place.le_trans g.stop (Span.le_stop_join _ _).2⟩

end Lies

/-- A word that is read first lies between the states. -/
theorem Opens.lies (h : Opens s t u) (hs : Orderly s) : Lies t.span s u := by
  have hnext := h.next
  have hword : s.current.kind.IsWord := hnext ▸ h.word
  have hadvance := Orderly.past hs (Past.advance s)
  have hlast : s.advance.2.last = some t := by
    rw [hs.regular.advance_of_isWord hword, hnext]
  have hmeasured : t.Measured := (hadvance.measured t (by simp [hlast])).1
  obtain ⟨hstart, -, -, -⟩ := hadvance.previous hlast
  have hbehind : Grammar.behind s.advance.2 = t.span.stop := by
    unfold Grammar.behind State.previous
    rw [s.split_advance, hlast]
    rfl
  have hhere : here s = t.span.start := congrArg (·.span.start) hnext
  obtain ⟨hsome, hprevious, hle⟩ := h.behind.behind_le hadvance (by rw [hlast]; rfl)
  refine ⟨hsome, ?_, hmeasured.start_le_stop, ?_, ?_⟩
  · rw [hhere]
    exact Place.le_refl _
  · rwa [hbehind] at hle
  · rw [hhere, ← hstart]
    exact hprevious

theorem Stands.lies {span : Span} (h : Stands span s u) (hs : Orderly s) : Lies span s u := by
  obtain ⟨m, t, hm, hopens, rfl⟩ := h
  have hlies := hopens.lies (hs.past hm)
  exact hlies.widen hs hm (.refl u) (hs.past (hm.trans hopens.past))

/-- What starts no earlier than a word and stops no later than what was read last lies within the
    span that reaches from the one to the other. -/
theorem Opens.within (h : Opens s t u) {span : Span} (hstart : here s ≤ span.start)
    (hstop : span.stop ≤ Grammar.behind u) : span.Within (t.span.join u.previous.span) := by
  have hhere : here s = t.span.start := congrArg (·.span.start) h.next
  rw [hhere] at hstart
  exact ⟨Place.le_trans (Span.start_join_le _ _).1 hstart,
    Place.le_trans hstop (Span.le_stop_join _ _).2⟩

/-- A span that reaches from a word to what was read last. -/
theorem Opens.lies_join (h : Opens s t u) (hs : Orderly s) :
    Lies (t.span.join u.previous.span) s u := by
  have hlies := h.lies hs
  exact hlies.join (hlies.previous (hs.past h.past))

end Grammar

end BasicCheck
