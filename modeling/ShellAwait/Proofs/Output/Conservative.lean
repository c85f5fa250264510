import ShellAwait.Output.Compile
import ShellAwait.Proofs.Analysis.Regimes.OfScript
import ShellAwait.Proofs.Catalogue.Members
import ShellAwait.Proofs.Output.Insertions

/-! # Scripts that need no change

Without deferred members and global names, no descriptor that comes up in a walk has anything
deferred in it, however deep. So nothing has to be awaited, and a script that does not await
anything itself is its own output.
-/

namespace ShellAwait

/-- Something deferred is in the descriptor, or in that of a result of its calls. -/
def Descriptor.mentionsDeferred : Descriptor → Bool
  | .deferred _ => true
  | .callable result => result.mentionsDeferred
  | .unknown | .plain _ | .shape _ => false

namespace Analysis

theorem mentionsDeferred_resolveMember {config : Config} {entry : MemberEntry}
    (h : (config.resolveMember entry).deferred = false) :
    (config.resolveMember entry).descriptor.mentionsDeferred = false := by
  obtain ⟨value, hatom, hdescriptor⟩ := config.descriptor_resolveMember entry
  have hvalue : value.mentionsDeferred = false := by
    cases value with
    | unknown | plain | shape => rfl
    | deferred | callable => cases hatom
  rw [h] at hdescriptor
  rcases hdescriptor with hread | hread
  · rw [hread]
    exact hvalue
  · rw [hread]
    exact hvalue

/-- Nothing is deferred and nothing awaited. -/
def Regime.undeferred {config : Config}
    (hmembers : config.resolve.MembersHold fun m => m.deferred = false) :
    Regime config.resolve where
  Raw d := d.mentionsDeferred = false
  Settled d := d.mentionsDeferred = false
  Escapes _ := False
  Waits := False
  raw h := h
  settled h _ := h
  held h _ := h
  unknown := rfl
  plain _ := rfl
  inner h := by cases h
  member base name := by
    refine Catalogue.MembersHold.memberOf (P := fun d => d.mentionsDeferred = false) ?_ rfl
      (fun _ _ _ _ _ => rfl) base name
    intro shape found hfound member m hm
    have hdeferred := hmembers shape found hfound member m hm
    obtain ⟨entry, rfl⟩ := Config.exists_entry_of_member hfound hm
    exact mentionsDeferred_resolveMember hdeferred
  result {d} h := by
    cases d with
    | callable result => exact h
    | unknown | plain | deferred | shape => rfl
  callable h := h
  promoted hwaits := hwaits.elim

/-- A walk of a script without `await` that ends leaves a log without sites and promotions. -/
theorem good_of_undeferred {config : Config} {script : List Stmt}
    (hglobals : config.resolve.globals.Holds fun m => m.deferred = false)
    (hmembers : config.resolve.MembersHold fun m => m.deferred = false)
    (hawait : ∀ o ∈ Script.stmtNodesAll {} script, o.kind ≠ .awaitExpr) :
    (Regime.undeferred hmembers).Good ((Action.ofScript config.resolve script).run
      { bindings := .ofCatalogue config.resolve }).2 := by
  have hstart : (Regime.undeferred hmembers).Good { bindings := .ofCatalogue config.resolve } := by
    refine ⟨Bindings.holds_ofCatalogue fun name m hm => ?_,
      fun _ h => absurd h List.not_mem_nil, fun _ h => absurd h List.not_mem_nil⟩
    have hdeferred := hglobals name m hm
    obtain ⟨entry, rfl⟩ := Config.exists_entry_of_global hm
    exact mentionsDeferred_resolveMember hdeferred
  have hsound : Sound (Regime.undeferred hmembers) false _
      (Action.ofScript config.resolve script) :=
    sound_ofScript fun o ho hkind => hawait o ho hkind
  refine ((hsound.passes hstart rfl).leads fun p _ hharms => ?_).1
  obtain ⟨_, _, _, _, hescapes⟩ := hharms
  exact hescapes

theorem loggedSites_eq_nil {log : List Event} (h : ∀ span, .site span ∉ log) :
    loggedSites log = [] := by
  refine List.eq_nil_iff_forall_not_mem.mpr fun span hspan => ?_
  exact h span (mem_loggedSites.mp hspan)

theorem loggedPromotions_eq_nil {log : List Event} (h : ∀ span, .promoted span ∉ log) :
    loggedPromotions log = [] := by
  refine List.eq_nil_iff_forall_not_mem.mpr fun span hspan => ?_
  exact h span (mem_loggedPromotions.mp hspan)

end Analysis

namespace Output

open Text

/-! ## Weaving without marks -/

theorem weaveToken_of_not_resumes {pending : Pending} (h : pending.resumes = false)
    (token : Token) :
    (weaveToken pending token).1 = [.source token] ∧
      (weaveToken pending token).2.resumes = false := by
  unfold weaveToken
  rw [h]
  split
  · exact ⟨rfl, h⟩
  · exact ⟨rfl, rfl⟩

variable {marks : Marks}

mutual

theorem weaveTree_of_no_marks (hsites : marks.suspensions = []) (hpromoted : marks.promoted = [])
    (place : Place) (offset : Nat) {pending : Pending} (hpending : pending.resumes = false)
    (tree : Tree) :
    (weaveTree marks place offset pending tree).1 = tree.leaves.map .source ∧
      (weaveTree marks place offset pending tree).2.resumes = false := by
  match tree with
  | .leaf token => exact weaveToken_of_not_resumes hpending token
  | .node kind children =>
      have hunsuspended (span : Span) : marks.isSuspended span = false := by
        rw [Marks.isSuspended, hsites]
        rfl
      have hunpromoted (span : Span) : marks.isPromoted span = false := by
        rw [Marks.isPromoted, hpromoted]
        rfl
      simp only [weaveTree, hunsuspended, hunpromoted, Bool.and_false, Bool.false_and,
        Bool.false_eq_true, if_false]
      -- nothing is put in front of the node
      change (weaveTrees ..).1 = _ ∧ _
      apply weaveTrees_of_no_marks hsites hpromoted
      exact hpending

theorem weaveTrees_of_no_marks (hsites : marks.suspensions = []) (hpromoted : marks.promoted = [])
    (parent : NodeKind) (siblings : List Tree) (previous : Option Tree) (offset : Nat)
    {pending : Pending} (hpending : pending.resumes = false) (trees : List Tree) :
    (weaveTrees marks parent siblings previous offset pending trees).1 =
        (Tree.leavesAll trees).map .source ∧
      (weaveTrees marks parent siblings previous offset pending trees).2.resumes = false := by
  match trees with
  | [] => exact ⟨rfl, hpending⟩
  | tree :: rest =>
      obtain ⟨hfirst, hleft⟩ := weaveTree_of_no_marks hsites hpromoted
        (Place.under parent siblings previous) offset hpending tree
      obtain ⟨hothers, hlast⟩ := weaveTrees_of_no_marks hsites hpromoted parent siblings
        (if tree.isNode then some tree else previous) (offset + tree.width) hleft rest
      refine ⟨?_, hlast⟩
      rw [Tree.leavesAll, List.map_append, ← hfirst, ← hothers]
      rfl

end

theorem render_map_source (tokens : List Token) :
    render (tokens.map .source) = Token.textOf tokens := by
  rw [render, List.flatMap_map, Token.textOf]
  rfl

/-- The text of a script comes out as it is if nothing is marked in it. -/
theorem render_weave_of_no_marks (hsites : marks.suspensions = []) (hpromoted : marks.promoted = [])
    (source : List Char) : render (weave marks (parse source).tree) = source := by
  have hstart : ({} : Pending).resumes = false := rfl
  have hpieces := (weaveTree_of_no_marks hsites hpromoted {} 0 hstart (parse source).tree).1
  rw [weave, hpieces, render_map_source, Tree.leaves_parse, Token.textOf_tokenize]

end Output

/-- Compiling is conservative: against a catalogue without deferred members and global names, a
script that has no `await` and compiles has no suspension sites and no promoted functions, and is
its own output. -/
theorem compile_conservative {config : Config} {c : Catalogue}
    (hbuild : Catalogue.build config = .ok c)
    (hglobals : ∀ name m, c.globals.get? name = some m → m.deferred = false)
    (hmembers : ∀ shape found, c.shapes.get? shape = some found →
      ∀ name m, found.members.get? name = some m → m.deferred = false)
    {source : List Char} (hawait : ∀ o ∈ (parse source).tree.nodes, o.kind ≠ .awaitExpr)
    {compiled : Compiled} (hcompile : compile c source = .ok compiled) :
    compiled.findings.suspensions = [] ∧ compiled.findings.promoted = [] ∧
      Output.render compiled.pieces = source := by
  obtain rfl := Catalogue.eq_resolve_of_build hbuild
  obtain ⟨findings, hanalyse, rfl⟩ := compile_eq_ok hcompile
  obtain ⟨hfault, d, s, hrun, rfl⟩ := run_of_analyse hanalyse
  have hgood := Analysis.good_of_undeferred hglobals hmembers
    fun o ho => hawait o ((nodes_parse hfault).subset ho)
  rw [hrun] at hgood
  have hsites : (Findings.ofState s).suspensions = [] := by
    rw [Findings.ofState, Analysis.loggedSites_eq_nil fun span => hgood.log _]
    rfl
  have hpromoted : (Findings.ofState s).promoted = [] := by
    rw [Findings.ofState, Analysis.loggedPromotions_eq_nil fun span => hgood.log _]
    rfl
  dsimp only
  exact ⟨hsites, hpromoted, Output.render_weave_of_no_marks hsites hpromoted source⟩

def chainConfig : Config where
  globals := ⟨[("root", ⟨.property, false, some "Chain"⟩)]⟩
  shapes := ⟨[("Chain", ⟨none, ⟨[("next", ⟨.property, false, some "Chain"⟩),
    ("size", ⟨.method, false, some "number"⟩)]⟩⟩)]⟩

def chainScript : List Char := "async (x = root.next) => { while (x) x = x.size(); }".toList

theorem compile_conservative_chain : ∃ compiled,
    compile chainConfig.resolve chainScript = .ok compiled ∧
    compiled.findings.suspensions = [] ∧ compiled.findings.promoted = [] ∧
      Output.render compiled.pieces = chainScript := by
  obtain ⟨compiled, hcompile, -⟩ : ∃ compiled,
      compile chainConfig.resolve chainScript = .ok compiled ∧
        compiled.findings.suspensions = [] := exists_of_map_toOption (by decide +kernel)
  have hbuild : Catalogue.build chainConfig = .ok chainConfig.resolve := rfl
  have hglobals : ∀ name m, chainConfig.resolve.globals.get? name = some m → m.deferred = false :=
    Dictionary.holds_of_values (by decide)
  have hmembers : chainConfig.resolve.MembersHold fun m => m.deferred = false := by
    refine Dictionary.holds_of_values fun found hfound => Dictionary.holds_of_values ?_
    revert found
    decide
  have hawait : ∀ o ∈ (parse chainScript).tree.nodes, o.kind ≠ .awaitExpr := by decide +kernel
  exact ⟨compiled, hcompile, compile_conservative hbuild hglobals hmembers hawait hcompile⟩

end ShellAwait
