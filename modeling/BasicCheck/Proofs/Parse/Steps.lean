import BasicCheck.Proofs.Parse.Leads

/-!
# What the steps of the grammar lead to

One rule for each of the small steps that all of the grammar is made of: looking, reading, recording
and noting, and the loops over single tokens. Two notions are used throughout: a kind is a word if
only a whole token can be of it (`Kind.IsWord`), and identifiers are named by a run if each of them
stands where another one of the tokens stands that the run has read (`Names`). Two more tell which
tokens may be noted: one that has just been read is the newest (`Newest`), and one behind which only
others have been noted is still not noted itself (`Unnoted`).
-/

namespace BasicCheck

/-- Kinds that neither half a token nor the end of the file is of. -/
def Kind.IsWord (kind : Kind) : Prop := kind ≠ .endOfFile ∧ kind ≠ .equal

instance (kind : Kind) : Decidable kind.IsWord :=
  inferInstanceAs (Decidable (_ ∧ _))

theorem Kind.isWord_keyword (word : Keyword) : (Kind.keyword word).IsWord :=
  ⟨nofun, nofun⟩

theorem Kind.isWord_greaterEqual : Kind.greaterEqual.IsWord :=
  ⟨nofun, nofun⟩

theorem Kind.isName_keyword (word : Keyword) : (Kind.keyword word).IsName :=
  Or.inr (Or.inr rfl)

theorem Kind.isName_of_mayNameMember {kind : Kind}
    (hk : (kind == .ident || kind.isKeyword) = true) : kind.IsName := by
  rcases Bool.or_eq_true_iff.mp hk with hk | hk
  · exact Or.inl (eq_of_beq hk)
  · exact Or.inr (Or.inr hk)

theorem Kind.IsName.isWord {kind : Kind} (h : kind.IsName) : kind.IsWord := by
  rcases h with rfl | rfl | hkeyword
  · decide
  · decide
  · cases kind with
    | keyword word => exact isWord_keyword word
    | _ => cases hkeyword

namespace Parse

/-! ## 1. Tokens behind names -/

/-- Keys that tokens have, each of another one of the tokens that a run has read. -/
def Fits {κ : Type} [DecidableEq κ] (key : Token → κ) (keys : List κ) (trace : List Event) : Prop :=
  ∀ k, keys.count k ≤ ((readBy trace).map key).count k

namespace Fits

variable {κ : Type} [DecidableEq κ] {key : Token → κ} {xs ys : List κ} {trace more : List Event}

theorem nil : Fits key [] trace := fun _ => Nat.zero_le _

theorem read {t : Token} : Fits key [key t] [.reads t] := fun _ => Nat.le_refl _

theorem append (h : Fits key xs trace) (k : Fits key ys more) :
    Fits key (xs ++ ys) (trace ++ more) := by
  intro x
  rw [readBy_append, List.map_append, List.count_append, List.count_append]
  exact Nat.add_le_add (h x) (k x)

theorem before (h : Fits key xs trace) (more : List Event) : Fits key xs (trace ++ more) := by
  have hall : Fits key (xs ++ []) (trace ++ more) := h.append nil
  rwa [List.append_nil] at hall

theorem behind (h : Fits key xs more) (trace : List Event) : Fits key xs (trace ++ more) :=
  nil.append h

theorem perm (h : Fits key xs trace) (hp : xs.Perm ys) : Fits key ys trace := by
  intro x
  rw [← hp.count_eq]
  exact h x

theorem mono (h : Fits key xs trace) (hs : ys.Sublist xs) : Fits key ys trace :=
  fun x => Nat.le_trans (hs.count_le x) (h x)

end Fits

/-- Identifiers each of which stands where another one of the tokens stands that a run has read. -/
def Names (is : List Ident) (trace : List Event) : Prop :=
  Fits Token.span (is.map Ident.span) trace

namespace Names

variable {is js : List Ident} {trace more : List Event}

theorem nil : Names [] trace := Fits.nil

theorem read (t : Token) (name : String) (role : Role) :
    Names [⟨name, role, t.span⟩] [.reads t] := Fits.read

theorem append (h : Names is trace) (k : Names js more) : Names (is ++ js) (trace ++ more) := by
  unfold Names
  rw [List.map_append]
  exact Fits.append h k

theorem before (h : Names is trace) (more : List Event) : Names is (trace ++ more) :=
  Fits.before h more

theorem behind (h : Names is more) (trace : List Event) : Names is (trace ++ more) :=
  Fits.behind h trace

theorem perm (h : Names is trace) (hp : is.Perm js) : Names js trace :=
  Fits.perm h (hp.map _)

end Names

/-! ## 2. Looking -/

/-- A step that only looks at the state. -/
def Looks {α : Type} (p : Step α) : Prop := ∀ s, p s = ((p s).1, s)

namespace Looks

variable {α β : Type}

theorem pure (a : α) : Looks (Pure.pure a) := fun _ => rfl

theorem bind {p : Step α} {f : α → Step β} (hp : Looks p) (hf : ∀ a, Looks (f a)) :
    Looks (p >>= f) := by
  intro s
  have heq : (p >>= f) s = f (p s).1 s := by
    show f (p s).1 (p s).2 = _
    rw [hp s]
  rw [heq]
  exact hf _ s

end Looks

theorem looks_currentKind : Looks currentKind := fun _ => rfl

theorem looks_nextKind : Looks nextKind := fun _ => rfl

theorem looks_outset : Looks outset := fun _ => rfl

theorem looks_sees (kind : Kind) : Looks (sees kind) := fun _ => rfl

theorem looks_atStatementEnd : Looks atStatementEnd := by
  refine looks_currentKind.bind fun kind => ?_
  split <;> exact Looks.pure _

/-! ## 3. Reading -/

/-- A word that comes next is the first of the unread tokens, and no token is half read. -/
theorem State.rest_of_isWord {s : State} (heof : s.eof.kind = .endOfFile)
    (hk : s.current.kind.IsWord) :
    s.split = none ∧ s.rest.tokens = s.current :: s.rest.tokens.tail := by
  unfold current at hk ⊢
  cases hsplit : s.split with
  | some whole =>
    rw [hsplit] at hk
    exact absurd rfl hk.2
  | none =>
    rw [hsplit] at hk
    cases hrest : s.rest.tokens with
    | nil =>
      rw [hrest] at hk
      exact absurd heof hk.1
    | cons t rest => exact ⟨rfl, rfl⟩

theorem State.head?_of_isWord {s : State} (hs : s.Sound) (hk : s.current.kind.IsWord) :
    s.split = none ∧ s.rest.tokens.head? = some s.current := by
  obtain ⟨hsplit, hrest⟩ := rest_of_isWord hs.eof hk
  rw [hrest]
  exact ⟨hsplit, rfl⟩

theorem State.advance_of_head? {s : State} {t : Token} (hsplit : s.split = none)
    (ht : s.rest.tokens.head? = some t) : s.advance = (t, Event.act s (.reads t)) := by
  unfold advance
  split
  · simp_all
  · split
    · simp_all
    · rename_i hrest
      rw [hrest] at ht
      cases ht
      rfl

theorem State.advance_of_split {s : State} {whole : Token} (hsplit : s.split = some whole) :
    s.advance = (equalHalf whole, Event.act s (.readsHalf whole)) := by
  unfold advance
  split
  · simp_all [Event.act]
  · simp_all

theorem State.advance_of_nil {s : State} (hsplit : s.split = none) (hrest : s.rest.tokens = []) :
    s.advance = (s.eof, s) := by
  unfold advance
  split
  · simp_all
  · split <;> simp_all

section Rules

variable {o s : State} {trace : List Event} {level : Level} {α : Type} {h : At o trace s}

theorem At.state_sound (h : At o trace s) : s.Sound := h.run.sound h.sound

/-- A step that is one event, of a sort that is allowed everywhere. -/
theorem At.Leads.event {p : Step α} {Q : α → List Event → Prop} {e : Event} {a : α}
    (hp : p s = (a, e.act s)) (hlegal : e.Legal (readBy trace) s) (hplain : e.IsPlain)
    (hQ : Q a [e]) : h.Leads level p Q := by
  refine At.Leads.of_run hp ⟨h.sound, h.run.next hlegal⟩ (fun e' he => ?_) hQ
  rw [List.mem_singleton.mp he]
  exact level.allows_of_isPlain hplain

/-- A step that is one event of whatever sort. -/
theorem At.Leads.anyEvent {p : Step α} {Q : α → List Event → Prop} {e : Event} {a : α}
    (hp : p s = (a, e.act s)) (hlegal : e.Legal (readBy trace) s) (hQ : Q a [e]) :
    h.Leads .statement p Q :=
  At.Leads.of_run hp ⟨h.sound, h.run.next hlegal⟩ (fun _ _ => trivial) hQ

/-- Keeping the record is no more than an event. -/
theorem leads_begin : h.Leads .statement begin fun _ more => declaredBy more = [] :=
  At.Leads.anyEvent (e := .begins) (a := ()) rfl trivial rfl

theorem leads_noteRecovery {level : Level} (hlevel : ∀ recovery, level.Allows (.catches recovery))
    (start : Outset) (f : Fault) :
    h.Leads level (noteRecovery start f) fun _ _ => True := by
  have hrun : At o (trace ++ [.catches (s.recovery start f)]) (noteRecovery start f s).2 :=
    ⟨h.sound, h.run.next (e := .catches (s.recovery start f)) trivial⟩
  exact At.Leads.of_run rfl hrun (List.forall_mem_singleton.mpr (hlevel _)) trivial

/-- A step that changes nothing. -/
theorem At.Leads.nothing {p : Step α} {Q : α → List Event → Prop} {a : α} (hp : p s = (a, s))
    (hQ : Q a []) : h.Leads level p Q :=
  At.Leads.of_run hp (by rwa [List.append_nil]) (fun _ he => absurd he List.not_mem_nil) hQ

theorem leads_advance_of_isWord (hk : s.current.kind.IsWord) :
    h.Leads level advance fun t more => t = s.current ∧ more = [.reads t] := by
  obtain ⟨hsplit, hhead⟩ := State.head?_of_isWord h.state_sound hk
  exact At.Leads.event (State.advance_of_head? hsplit hhead) ⟨hsplit, hhead⟩ ⟨trivial, rfl⟩
    ⟨rfl, rfl⟩

/-- What is read is a token of the text if it is a word, and nothing is noted. -/
theorem leads_advance :
    h.Leads level advance fun t more =>
      (t.kind.IsWord → more = [.reads t]) ∧ ∀ e ∈ more, e.IsQuiet := by
  cases hsplit : s.split with
  | some whole =>
    exact At.Leads.event (State.advance_of_split hsplit) hsplit ⟨trivial, rfl⟩
      ⟨fun hk => absurd rfl hk.2, List.forall_mem_singleton.mpr trivial⟩
  | none =>
    cases hrest : s.rest.tokens with
    | nil =>
      exact At.Leads.nothing (State.advance_of_nil hsplit hrest)
        ⟨fun hk => absurd h.state_sound.eof hk.1, List.forall_mem_nil _⟩
    | cons t rest =>
      have hhead : s.rest.tokens.head? = some t := by rw [hrest]; rfl
      exact At.Leads.event (State.advance_of_head? hsplit hhead) ⟨hsplit, hhead⟩ ⟨trivial, rfl⟩
        ⟨fun _ => rfl, List.forall_mem_singleton.mpr trivial⟩

/-- A word that comes next and has been looked at is read. -/
theorem tries_skip (hk : s.current.kind.IsWord) :
    h.Tries level (discard (liftM advance : Parser Token)) fun _ more =>
      more = [.reads s.current] := by
  refine At.Tries.dropped (At.Tries.step ((leads_advance_of_isWord hk).mono ?_))
  rintro t more ⟨rfl, hmore⟩
  exact hmore

theorem leads_advance' : h.Leads level advance fun _ _ => True :=
  leads_advance.mono fun _ _ _ => trivial

theorem leads_consume (kind : Kind) : h.Leads level (consume kind) fun _ _ => True := by
  refine At.Leads.look (sees_eq s kind) ?_
  split
  · exact leads_advance'.bind fun _ _ _ _ _ => At.Leads.pure trivial
  · exact At.Leads.pure trivial

theorem tries_failHere {cause : Cause} {Q : α → List Event → Prop}
    (hcause : cause.severity = .error) : h.Tries level (failHere cause) Q :=
  At.Tries.look (current_eq s) (At.Tries.throw hcause)

theorem tries_expect (kind : Kind) : h.Tries level (expect kind) fun _ _ => True := by
  refine At.Tries.look (sees_eq s kind) ?_
  split
  · exact At.Tries.step leads_advance'
  · exact At.Tries.look (current_eq s) (tries_failHere rfl)

theorem gives_expect (level : Level) (kind : Kind) :
    Gives level (expect kind) fun _ _ => True := fun _ _ _ h => tries_expect (h := h) kind

/-- A name that comes next is read. -/
theorem leads_advance_of_isName (hk : s.current.kind.IsName) :
    h.Leads level advance fun t more => more = [.reads t] ∧ t.kind.IsName := by
  refine (leads_advance_of_isWord hk.isWord).mono ?_
  rintro t more ⟨rfl, hmore⟩
  exact ⟨hmore, hk⟩

theorem tries_expectIdent :
    h.Tries level expectIdent fun t more => more = [.reads t] ∧ t.kind.IsName := by
  refine At.Tries.look (sees_eq s .ident) ?_
  split
  · rename_i hk
    exact At.Tries.step (leads_advance_of_isName (Or.inl (eq_of_beq hk)))
  · exact tries_failHere rfl

theorem tries_expectSeparator : h.Tries level expectSeparator fun _ _ => True := by
  refine At.Tries.look (currentKind_eq s) ?_
  split
  · exact At.Tries.dropped (At.Tries.step leads_advance')
  · exact At.Tries.dropped (At.Tries.step leads_advance')
  · exact At.Tries.pure trivial
  · exact At.Tries.look (current_eq s) (tries_failHere rfl)

/-! ## 4. Recording -/

theorem leads_reportFault (f : Fault) :
    h.Leads level (reportFault f) fun _ more => more = [.reports (.ofFault f)] :=
  At.Leads.event (e := .reports (.ofFault f)) rfl trivial ⟨trivial, rfl⟩ rfl

theorem leads_report (cause : Cause) (span : Span) :
    h.Leads level (report cause span) fun _ more => more = [.reports (.ofFault ⟨cause, span⟩)] :=
  leads_reportFault _

theorem leads_recordRegion (kind : RegionKind) (span : Span) :
    h.Leads level (recordRegion kind span) fun _ _ => True :=
  At.Leads.event (e := .closes ⟨kind, span⟩) rfl trivial ⟨trivial, rfl⟩ trivial

/-! ## 5. Noting -/

/-- A token that stands where a run has read a name, behind everything that is referred to. -/
structure Newest (trace : List Event) (s : State) (token : Token) : Prop where
  named : token.IsNamed (readBy trace)
  latest : s.symbols.Latest token

/-- A token that stands where a run has read a name, apart from everything that is referred to. -/
structure Unnoted (trace : List Event) (s : State) (token : Token) : Prop where
  named : token.IsNamed (readBy trace)
  clear : s.symbols.Clear token

theorem Newest.unnoted {token : Token} (hnew : Newest trace s token) : Unnoted trace s token :=
  ⟨hnew.named, hnew.latest.clear⟩

/-- A name that has just been read is the newest. -/
theorem At.newest {t : Token} (h : At o (trace ++ [.reads t]) s) (hname : t.kind.IsName) :
    Newest (trace ++ [.reads t]) s t := by
  obtain ⟨b, hb, ⟨-, hhead⟩, rfl⟩ := h.run.exists_before
  refine ⟨⟨t, by simp, hname, rfl⟩, fun r hr => ?_⟩
  obtain ⟨n, hn⟩ := Array.mem_iff_getElem?.mp hr
  exact (hb.sound h.sound).behind hn t (List.mem_of_head? hhead)

/-- It stays the newest as long as nothing is noted. -/
theorem Newest.after {u : State} {more : List Event} {token : Token}
    (hnew : Newest trace s token) (h : At o trace s) (k : At o (trace ++ more) u)
    (hquiet : ∀ e ∈ more, e.IsQuiet) : Newest (trace ++ more) u token where
  named := hnew.named.of_subset (by rw [readBy_append]; exact List.subset_append_left _ _)
  latest := by
    rw [h.run.symbols_eq k.run hquiet]
    exact hnew.latest

/-- A token that has been read is not noted by a run that starts behind it. -/
theorem Unnoted.after {u : State} {more : List Event} {token : Token}
    (hun : Unnoted trace s token) (h : At o trace s) (k : At o (trace ++ more) u)
    (alone : ∃ u', Run s more u') : Unnoted (trace ++ more) u token where
  named := hun.named.of_subset (by rw [readBy_append]; exact List.subset_append_left _ _)
  clear := by
    obtain ⟨u', hrun⟩ := alone
    obtain rfl : u = u' := by
      rw [k.run.eq_foldl, hrun.eq_foldl, List.foldl_append, ← h.run.eq_foldl]
    intro r hr
    rcases hrun.named hr with hr | ⟨v, hv, -, hspan⟩
    · exact hun.clear r hr
    · -- what the later run notes it has read behind the token
      have hrest : v ∈ s.rest.tokens := by
        rw [hrun.tokens_eq]
        exact List.mem_append_left _ hv
      have hbefore : token.Before v := hun.named.before fun t ht =>
        h.run.before_of_mem h.sound ht hrest
      exact Or.inr ((Token.before_congr rfl hspan).mpr hbefore)

/-- A run refers to a symbol with a given key. -/
def Notes (key : SymbolKey) (trace : List Event) : Prop := ∃ e ∈ trace, e.key? = some key

theorem Notes.before {key : SymbolKey} (hn : Notes key trace) (more : List Event) :
    Notes key (trace ++ more) := by
  obtain ⟨e, he, hkey⟩ := hn
  exact ⟨e, List.mem_append_left _ he, hkey⟩

theorem Notes.behind {key : SymbolKey} {more : List Event} (hn : Notes key more)
    (trace : List Event) : Notes key (trace ++ more) := by
  obtain ⟨e, he, hkey⟩ := hn
  exact ⟨e, List.mem_append_right _ he, hkey⟩

/-- A reference to a symbol of a key, which is there or comes into being. -/
theorem leads_referenceOrCreate (meaning : Meaning) {p : Step α} {token : Token} {a : α}
    (hp : p s = (a, { s with symbols := (s.symbols.referenceOrCreate token meaning).2 }))
    (hplain : (Event.creates meaning token).declared? = none) (hnew : Newest trace s token) :
    h.Leads level p fun _ more => Notes ⟨meaning.kind, token.folded⟩ more := by
  unfold SymbolTable.referenceOrCreate at hp
  split at hp
  · rename_i id hid
    exact At.Leads.event (e := .refers meaning.kind id token) hp ⟨hid, hnew.named, hnew.latest⟩
      ⟨trivial, rfl⟩ ⟨_, List.mem_singleton_self _, rfl⟩
  · rename_i hfree
    exact At.Leads.event (e := .creates meaning token) hp
      ⟨hfree, hnew.named, hnew.latest.clear⟩ ⟨trivial, hplain⟩ ⟨_, List.mem_singleton_self _, rfl⟩

theorem leads_noteVariable {token : Token} (hnew : Newest trace s token) :
    h.Leads level (noteVariable token) fun _ _ => True :=
  (leads_referenceOrCreate (.variable _ .dynamic) rfl rfl hnew).mono fun _ _ _ => trivial

theorem leads_noteCalled {token : Token} (hnew : Newest trace s token) :
    h.Leads level (noteCalled token) fun _ _ => True :=
  (leads_referenceOrCreate .subroutine rfl rfl hnew).mono fun _ _ _ => trivial

theorem leads_noteLabel {token : Token} (hnew : Newest trace s token) :
    h.Leads level (noteLabel token) fun _ more => Notes ⟨.label, token.folded⟩ more :=
  leads_referenceOrCreate (.label false) rfl rfl hnew

theorem trySymbols_eq {declare : SymbolTable → Bool × SymbolTable} {done : Bool}
    {table : SymbolTable} (htable : declare s.symbols = (done, table)) :
    trySymbols declare s = (done, { s with symbols := table }) := by
  show ((declare s.symbols).1, { s with symbols := (declare s.symbols).2 }) = _
  rw [htable]

/-- A reference to a symbol that may be known; nothing happens if it is not. -/
theorem leads_noteIfKnown (kind : SymbolKind) {token : Token} (hnew : Newest trace s token) :
    h.Leads level (noteIfKnown kind token) fun known more => known = false → more = [] := by
  cases hid : s.symbols.find? kind token.text with
  | some id =>
    have hfound : s.symbols.reference? kind token =
        (some id, s.symbols.addReference id token) := by
      unfold SymbolTable.reference?
      rw [hid]
    exact At.Leads.event (e := .refers kind id token) (a := true)
      (trySymbols_eq (by simp only [hfound]; rfl)) ⟨hid, hnew.named, hnew.latest⟩ ⟨trivial, rfl⟩ nofun
  | none =>
    have hmissing : s.symbols.reference? kind token = (none, s.symbols) := by
      unfold SymbolTable.reference?
      rw [hid]
    exact At.Leads.nothing (trySymbols_eq (by simp only [hmissing]; rfl)) fun _ => rfl

/-- A symbol that is not known leaves the table as it is. -/
theorem isQuiet_of_unknown {known : Bool} {more : List Event} (h : known = false → more = [])
    (hknown : ¬ known = true) : ∀ e ∈ more, e.IsQuiet := by
  rw [h (eq_false_of_ne_true hknown)]
  exact List.forall_mem_nil _

/-- A change to the table that declares a token as something, but not as a label. -/
def Introduces (declare : SymbolTable → Bool × SymbolTable) (token : Token) : Prop :=
  ∀ t : SymbolTable, ∃ meaning, declare t = t.declare token meaning ∧
    (Event.creates meaning token).declared? = none

theorem leads_trySymbols {declare : SymbolTable → Bool × SymbolTable} {token : Token}
    (hdeclare : Introduces declare token) (hun : Unnoted trace s token) :
    h.Leads level (trySymbols declare) fun _ _ => True := by
  obtain ⟨meaning, hm, hplain⟩ := hdeclare s.symbols
  unfold SymbolTable.declare at hm
  split at hm
  · exact At.Leads.nothing (trySymbols_eq hm) trivial
  · rename_i hfree
    exact At.Leads.event (e := .creates meaning token) (trySymbols_eq hm)
      ⟨Option.not_isSome_iff_eq_none.mp hfree, hun.named, hun.clear⟩ ⟨trivial, hplain⟩ trivial

/-- The declaration of a label, which may have been referred to before. -/
theorem leads_declareLabel {token : Token} (hnew : Newest trace s token) :
    h.Leads .statement (trySymbols (·.declareLabel token)) fun done more =>
      declaredBy more = if done then [⟨token.text, .label, token.span⟩] else [] := by
  cases hid : s.symbols.find? .label token.text with
  | none =>
    have htable : s.symbols.declareLabel token = (true, s.symbols.create token (.label true)) := by
      unfold SymbolTable.declareLabel
      rw [hid]
    exact At.Leads.anyEvent (e := .creates (.label true) token) (trySymbols_eq htable)
      ⟨hid, hnew.named, hnew.latest.clear⟩ rfl
  | some id =>
    obtain ⟨symbol, hsymbol, hkey⟩ := h.state_sound.table.keys.mp hid
    by_cases hdeclared : symbol.isDeclared = false
    · have htable : s.symbols.declareLabel token =
          (true, (s.symbols.declareAt id token).addReference id token) := by
        unfold SymbolTable.declareLabel
        rw [hid]
        simp only [hsymbol, Option.map_some, hdeclared]
        rfl
      exact At.Leads.anyEvent (e := .promotes id token) (trySymbols_eq htable)
        ⟨⟨symbol, hsymbol, hkey, hdeclared⟩, hnew.named, hnew.latest⟩ rfl
    · have htable : s.symbols.declareLabel token = (false, s.symbols) := by
        unfold SymbolTable.declareLabel
        rw [hid]
        simp only [hsymbol, Option.map_some, eq_true_of_ne_false hdeclared]
      exact At.Leads.nothing (trySymbols_eq htable) rfl

/-! ## 6. Loops -/

theorem leads_skipWhile (skipped : Kind → Bool) :
    h.Leads level (skipWhile skipped) fun _ _ => True := by
  refine At.Leads.loop (I := fun _ _ => True) trivial (fun _ _ u k _ => ?_) fun _ _ _ => trivial
  refine At.Leads.look (currentKind_eq u) ?_
  split
  · exact leads_advance'.bind fun _ _ _ _ _ => At.Leads.pure trivial
  · exact At.Leads.pure trivial

theorem leads_synchronize : h.Leads level synchronize fun _ _ => True := by
  refine (leads_skipWhile _).bind fun _ _ u k _ => At.Leads.look (sees_eq u .endOfFile) ?_
  split
  · exact At.Leads.pure trivial
  · exact leads_advance' (h := k)

/-- What holds of a run holds of every run that it is a part of. -/
def Lasting (P : List Event → Prop) : Prop :=
  ∀ before more behind, P more → P (before ++ (more ++ behind))

theorem lasting_notes (key : SymbolKey) : Lasting (Notes key) :=
  fun before _ behind hn => (hn.before behind).behind before

/-- Items between commas name what each of them names, and what lasts of each of them holds of all. -/
theorem tries_items {item : Parser α} {idents : α → List Ident} {P : α → List Event → Prop}
    (hlasting : ∀ a, Lasting (P a))
    (hitem : Gives level item fun a more => Names (idents a) more ∧ P a more) :
    h.Tries level (commaList item) fun as more =>
      as ≠ [] ∧ Names (as.flatMap idents) more ∧ ∀ a ∈ as, P a more := by
  refine (hitem h).bind fun first more u k hfirst => ?_
  refine At.Tries.bind (Q := fun as later => as ≠ #[] ∧
    Names (as.toList.flatMap idents) (more ++ later) ∧ ∀ a ∈ as, P a (more ++ later)) ?_
    fun as later _ _ hq => At.Tries.pure ?_
  · refine At.Tries.tryLoop (I := fun as done => as ≠ #[] ∧
      Names (as.toList.flatMap idents) (more ++ done) ∧ ∀ a ∈ as, P a (more ++ done)) ?_
      fun as done u' k' hI => ?_
    · rw [List.append_nil]
      refine ⟨nofun, by simpa using hfirst.1, fun a ha => ?_⟩
      rw [List.mem_singleton.mp (Array.mem_toList_iff.mpr ha)]
      exact hfirst.2
    · refine At.Tries.after (leads_consume .comma) fun found m1 u1 k1 _ => ?_
      split
      · refine (hitem k1).bind fun a m2 u2 k2 ha => At.Tries.pure ⟨by simp, ?_, fun b hb => ?_⟩
        · have hall := hI.2.1.append (ha.1.behind m1)
          simpa using hall
        · rcases Array.mem_push.mp hb with hb | rfl
          · simpa using hlasting b [] _ (m1 ++ m2) (hI.2.2 b hb)
          · simpa using hlasting b (more ++ (done ++ m1)) m2 [] ha.2
      · refine At.Tries.pure ⟨hI.1, ?_, fun b hb => ?_⟩
        · have hall := hI.2.1.before m1
          simpa using hall
        · simpa using hlasting b [] _ m1 (hI.2.2 b hb)
  · refine ⟨fun hnil => hq.1 (Array.toList_eq_nil_iff.mp hnil), by simpa using hq.2.1,
      fun a ha => ?_⟩
    simpa using hq.2.2 a (Array.mem_toList_iff.mp ha)

/-- Items between commas name what each of them names. -/
theorem tries_commaList {item : Parser α} {idents : α → List Ident}
    (hitem : Gives level item fun a more => Names (idents a) more) :
    h.Tries level (commaList item) fun as more => as ≠ [] ∧ Names (as.flatMap idents) more := by
  have hitem' : Gives level item fun a more => Names (idents a) more ∧ True :=
    fun _ _ _ k => (hitem k).mono fun _ _ hq => ⟨hq, trivial⟩
  exact (tries_items (fun _ _ _ _ => id) hitem').mono fun _ _ hq => ⟨hq.1, hq.2.1⟩

end Rules

end Parse

end BasicCheck
