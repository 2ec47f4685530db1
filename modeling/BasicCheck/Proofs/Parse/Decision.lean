import BasicCheck.Parse.Decision
import BasicCheck.Proofs.Parse.Action

/-!
# Runs through decisions

Every decision goes on with the run in which it stands, and names only what it has read
(**`decides_decisionAfter?`**).
-/

namespace BasicCheck

/-- The identifiers of a decision: its names, then those of its expressions. -/
def Decision.idents (d : Decision) : List Ident := d.names ++ d.expressions.flatMap Expr.idents

namespace Parse

/-- A parser whose results name only what it reads. -/
def Decides (p : Parser Decision) : Prop :=
  Gives .plain p fun d more => Names d.idents more

variable {o s : State} {trace : List Event} {h : At o trace s}

attribute [local simp] Decision.idents Decision.names Decision.expressions

/-! ## 1. Parts -/

theorem tries_fileAndKey : h.Tries .plain fileAndKey fun found more =>
    Names (found.1.idents ++ found.2.idents) more := by
  refine (reads_expression .plain h).bind fun file m1 u1 k1 hfile => ?_
  refine (tries_expect _).dropped.bind fun _ m2 u2 k2 _ => ?_
  refine (reads_expression .plain k2).bind fun key m3 u3 k3 hkey => At.Tries.pure ?_
  simpa using hfile.append (hkey.behind m2)

theorem tries_columnIf (wanted : Bool) : h.Tries .plain (columnIf wanted) fun e more =>
    Names (e.toList.flatMap Expr.idents) more := by
  unfold columnIf
  split
  · refine (tries_expect _).dropped.bind fun _ m1 u1 k1 _ => ?_
    refine (reads_expression .plain k1).bind fun e m2 u2 k2 he => At.Tries.pure ?_
    simpa using he.behind m1
  · exact At.Tries.pure Names.nil

theorem tries_searchOptions : h.Tries .plain searchOptions fun found more =>
    Names (found.1.toList.flatMap Expr.idents ++ found.2.toList.flatMap Expr.idents) more := by
  refine At.Tries.tryLoop (I := fun found done =>
    Names (found.1.toList.flatMap Expr.idents ++ found.2.toList.flatMap Expr.idents) done)
    Names.nil fun found done u k hfound => ?_
  obtain ⟨delimiter, order⟩ := found
  refine At.Tries.after (leads_consume _) fun isUsing m1 u1 k1 _ => ?_
  split
  · refine (reads_expression .plain k1).bind fun e m2 u2 k2 he => At.Tries.pure ?_
    have horder : Names (order.toList.flatMap Expr.idents) done :=
      Fits.mono hfound ((List.sublist_append_right _ _).map _)
    have hall := (horder.append (he.behind m1)).perm List.perm_append_comm
    simpa using hall
  · refine At.Tries.after (leads_consume _) fun isBy m2 u2 k2 _ => ?_
    split
    · refine (reads_expression .plain k2).bind fun e m3 u3 k3 he => At.Tries.pure ?_
      have hdelimiter : Names (delimiter.toList.flatMap Expr.idents) done :=
        Fits.mono hfound ((List.sublist_append_left _ _).map _)
      have hall := hdelimiter.append ((he.behind m2).behind m1)
      simpa using hall
    · exact At.Tries.pure (by simpa using hfound.before (m1 ++ m2))

/-! ## 2. Decisions -/

theorem decides_readDecision (form : ReadForm) : Decides (readDecision form) := by
  intro o trace s h
  refine tries_target.bind fun left m1 u1 k1 hleft => ?_
  refine (tries_expect _).dropped.bind fun _ m2 u2 k2 _ => ?_
  refine tries_fileAndKey.bind fun found m3 u3 k3 hfound => ?_
  obtain ⟨file, key⟩ := found
  refine (tries_columnIf _).bind fun column m4 u4 k4 hcolumn => At.Tries.pure ?_
  have hall := hleft.1.append ((hfound.append hcolumn).behind m2)
  simpa using hall

theorem decides_matReadDecision : Decides matReadDecision := by
  intro o trace s h
  refine (tries_variableIdent .assignment).bind fun name m1 u1 k1 hname => ?_
  refine (tries_expect _).dropped.bind fun _ m2 u2 k2 _ => ?_
  refine tries_fileAndKey.bind fun found m3 u3 k3 hfound => At.Tries.pure ?_
  have hall := hname.append (hfound.behind m2)
  simpa using hall

theorem decides_readNextDecision : Decides readNextDecision := by
  intro o trace s h
  refine tries_target.bind fun left m1 u1 k1 hleft => ?_
  refine (tries_expressionAfter? .USING).bind fun cursor m2 u2 k2 hcursor => At.Tries.pure ?_
  have hall := hleft.1.append hcursor
  simpa using hall

theorem decides_writeDecision (form : WriteForm) : Decides (writeDecision form) := by
  intro o trace s h
  refine (reads_expression .plain h).bind fun value m1 u1 k1 hvalue => ?_
  refine tries_expectOnOrTo.bind fun _ m2 u2 k2 _ => ?_
  refine tries_fileAndKey.bind fun found m3 u3 k3 hfound => ?_
  obtain ⟨file, key⟩ := found
  refine (tries_columnIf _).bind fun column m4 u4 k4 hcolumn => At.Tries.pure ?_
  have hall := hvalue.append ((hfound.append hcolumn).behind m2)
  simpa using hall

theorem decides_matWriteDecision : Decides matWriteDecision := by
  intro o trace s h
  refine (tries_variableIdent .reference).bind fun name m1 u1 k1 hname => ?_
  refine tries_expectOnOrTo.bind fun _ m2 u2 k2 _ => ?_
  refine tries_fileAndKey.bind fun found m3 u3 k3 hfound => At.Tries.pure ?_
  have hall := hname.append (hfound.behind m2)
  simpa using hall

/-- What is opened where, once one or two expressions have been read. -/
theorem tries_openTo (first : Expr) (second : Option Expr) :
    h.Tries .plain (do
      discard (expect (.keyword .TO))
      let handle ← target
      match second with
      | some table => return Decision.open (some first) table handle
      | none => return .open none first handle) fun d more =>
      ∀ before, Names (first.idents ++ second.toList.flatMap Expr.idents) before →
        Names d.idents (before ++ more) := by
  refine (tries_expect _).dropped.bind fun _ m1 u1 k1 _ => ?_
  refine tries_target.bind fun handle m2 u2 k2 hhandle => ?_
  cases second with
  | some table =>
    refine At.Tries.pure fun before hb => ?_
    have hall := hb.append (hhandle.1.behind m1)
    simpa using hall
  | none =>
    refine At.Tries.pure fun before hb => ?_
    have hall := hb.append (hhandle.1.behind m1)
    simpa using hall

theorem decides_openDecision : Decides openDecision := by
  intro o trace s h
  refine (reads_expression .plain h).bind fun first m1 u1 k1 hfirst => ?_
  refine At.Tries.after (leads_consume .comma) fun both m2 u2 k2 _ => ?_
  dsimp only
  split
  · refine At.Tries.bind (At.Tries.map (Q := fun e m => Names (e.toList.flatMap Expr.idents) m)
      ((reads_expression .plain k2).mono fun e m he => by simpa using he)) ?_
    intro second m3 u3 k3 hsecond
    refine (tries_openTo first second).mono fun d m4 hd => ?_
    simpa using hd _ (hfirst.append (hsecond.behind m2))
  · have hboth : Names (first.idents ++ []) (m1 ++ m2) := by simpa using hfirst.before m2
    refine At.Tries.given ((tries_openTo first none).mono fun d m3 hd => ?_)
    simpa using hd _ hboth

theorem decides_locateDecision : Decides locateDecision := by
  intro o trace s h
  refine (reads_expression .plain h).bind fun needle m1 u1 k1 hneedle => ?_
  refine (tries_expect _).dropped.bind fun _ m2 u2 k2 _ => ?_
  refine (reads_expression .plain k2).bind fun haystack m3 u3 k3 hhaystack => ?_
  refine tries_searchOptions.bind fun found m4 u4 k4 hfound => ?_
  obtain ⟨delimiter, order⟩ := found
  refine (tries_expect _).dropped.bind fun _ m5 u5 k5 _ => ?_
  refine tries_target.bind fun position m6 u6 k6 hposition => At.Tries.pure ?_
  have hlast := hfound.append (hposition.1.behind m5)
  have hall := hneedle.append ((hhaystack.append hlast).behind m2)
  simpa using hall

theorem decides_osReadDecision : Decides osReadDecision := by
  intro o trace s h
  refine tries_target.bind fun left m1 u1 k1 hleft => ?_
  refine (tries_expect _).dropped.bind fun _ m2 u2 k2 _ => ?_
  refine (reads_expression .plain k2).bind fun path m3 u3 k3 hpath => At.Tries.pure ?_
  have hall := hleft.1.append (hpath.behind m2)
  simpa using hall

theorem decides_osOpenDecision : Decides osOpenDecision := by
  intro o trace s h
  refine (reads_expression .plain h).bind fun path m1 u1 k1 hpath => ?_
  refine (tries_expect _).dropped.bind fun _ m2 u2 k2 _ => ?_
  refine tries_target.bind fun handle m3 u3 k3 hhandle => At.Tries.pure ?_
  have hall := hpath.append (hhandle.1.behind m2)
  simpa using hall

/-! ## 3. The keywords of decisions -/

theorem decides_fileAndKey {f : Expr × Expr → Decision}
    (hf : ∀ file key, (f (file, key)).idents = file.idents ++ key.idents) :
    Decides (f <$> fileAndKey) := by
  intro o trace s h
  refine At.Tries.map ((tries_fileAndKey (h := h)).mono fun found more hfound => ?_)
  rwa [hf]

/-- **Every decision behind its keyword goes on with the run** and names only what it has read. -/
theorem decides_decisionAfter? {word : Keyword} {p : Parser Decision}
    (hp : decisionAfter? word = some p) : Decides p := by
  have pair (file key : Expr) : [file, key].flatMap Expr.idents = file.idents ++ key.idents := by
    simp
  unfold decisionAfter? at hp
  split at hp <;> cases hp
  · intro o trace s h
    refine At.Tries.map ((reads_expression .plain h).mono fun e more he => ?_)
    simpa using he
  · exact decides_readDecision .read
  · exact decides_readDecision .readU
  · exact decides_readDecision .readO
  · exact decides_readDecision .readV
  · exact decides_matReadDecision
  · exact decides_readNextDecision
  · exact decides_writeDecision .write
  · exact decides_writeDecision .writeU
  · exact decides_writeDecision .writeV
  · exact decides_matWriteDecision
  · exact decides_openDecision
  · exact decides_fileAndKey pair
  · exact decides_fileAndKey pair
  · exact decides_fileAndKey pair
  · exact decides_locateDecision
  · exact decides_osReadDecision
  · exact decides_osOpenDecision

end Parse

end BasicCheck
