import ShellAwait.Output.Compile
import ShellAwait.Proofs.Analysis.Suspensions

/-! # What is inserted, and where

The output of a script is its text with insertions. The place of an insertion is the offset in the
script up to which the text has been written.
-/

namespace ShellAwait.Output

open Text

/-! ## Offsets of fragments -/

/-- Where the fragment is inserted into a text that starts at `offset`. -/
def offsets (fragment : Fragment) : Nat → List Piece → List Nat
  | _, [] => []
  | offset, .source token :: rest => offsets fragment (offset + byteLength token.text) rest
  | offset, .inserted other :: rest =>
      if other = fragment then offset :: offsets fragment offset rest
      else offsets fragment offset rest

/-- The length of the text of the script among pieces. -/
def extent (pieces : List Piece) : Nat := byteLength (Token.textOf (sourceTokens pieces))

theorem offsets_append (fragment : Fragment) (offset : Nat) (a b : List Piece) :
    offsets fragment offset (a ++ b) =
      offsets fragment offset a ++ offsets fragment (offset + extent a) b := by
  induction a generalizing offset with
  | nil => rfl
  | cons piece rest ih =>
      cases piece with
      | source token =>
          have hextent : extent (.source token :: rest) = byteLength token.text + extent rest :=
            byteLength_append ..
          rw [List.cons_append, offsets, ih, offsets, hextent, Nat.add_assoc]
      | inserted other =>
          have hextent : extent (.inserted other :: rest) = extent rest := rfl
          rw [List.cons_append, offsets, ih, offsets, hextent]
          split <;> rfl

theorem length_offsets (fragment : Fragment) (offset : Nat) (pieces : List Piece) :
    (offsets fragment offset pieces).length = pieces.count (.inserted fragment) := by
  induction pieces generalizing offset with
  | nil => rfl
  | cons piece rest ih =>
      cases piece with
      | source token => rw [offsets, ih, List.count_cons_of_ne (by simp)]
      | inserted other =>
          rw [offsets]
          by_cases h : other = fragment
          · rw [if_pos h, h, List.length_cons, ih, List.count_cons_self]
          · rw [if_neg h, ih, List.count_cons_of_ne (by simpa using h)]

mutual

theorem byteLength_leaves (tree : Tree) : byteLength (Token.textOf tree.leaves) = tree.width := by
  match tree with
  | .leaf token => simp [Tree.leaves, Tree.width, Token.textOf]
  | .node kind children => exact byteLength_leavesAll children

theorem byteLength_leavesAll (trees : List Tree) :
    byteLength (Token.textOf (Tree.leavesAll trees)) = Tree.widthAll trees := by
  match trees with
  | [] => rfl
  | tree :: rest =>
      have hfirst := byteLength_leaves tree
      have hrest := byteLength_leavesAll rest
      unfold Token.textOf at hfirst hrest ⊢
      rw [Tree.leavesAll, List.flatMap_append, byteLength_append, hfirst, hrest, Tree.widthAll]

end

/-! ## Insertions for nodes -/

/-- The spans of the nodes of some kinds that are marked. -/
def markedSpans (kinds : NodeKind → Bool) (marked : List Span) (nodes : List Occurrence) :
    List Span :=
  (nodes.filter fun o => kinds o.kind && o.span.foundIn marked).map Occurrence.span

theorem markedSpans_append (kinds : NodeKind → Bool) (marked : List Span) (a b : List Occurrence) :
    markedSpans kinds marked (a ++ b) = markedSpans kinds marked a ++ markedSpans kinds marked b := by
  simp [markedSpans]

theorem markedSpans_cons (kinds : NodeKind → Bool) (marked : List Span) (o : Occurrence)
    (nodes : List Occurrence) :
    markedSpans kinds marked (o :: nodes) =
      (if kinds o.kind && o.span.foundIn marked then [o.span] else []) ++
        markedSpans kinds marked nodes := by
  rw [markedSpans, List.filter_cons]
  split <;> rfl

/-- Pieces that await the marked nodes, `wrapped` ones in parentheses and `plain` ones without. -/
structure Inserts (marks : Marks) (nodes : List Occurrence) (offset : Nat) (pieces : List Piece)
    (wrapped plain : List Span) : Prop where
  sites : (wrapped ++ plain).Perm (markedSpans NodeKind.isSite marks.suspensions nodes)
  opens : (offsets .openAwait offset pieces).Perm (wrapped.map Span.start)
  closes : (offsets .close offset pieces).Perm (wrapped.map Span.stop)
  awaits : (offsets .await offset pieces).Perm (plain.map Span.start)
  asyncs : (offsets .async offset pieces).Perm
    ((markedSpans NodeKind.isFunction marks.promoted nodes).map Span.start)

theorem Inserts.append {marks : Marks} {a b : List Occurrence} {offset : Nat}
    {first second : List Piece}
    {wrapped wrapped' plain plain' : List Span} (ha : Inserts marks a offset first wrapped plain)
    (hb : Inserts marks b (offset + extent first) second wrapped' plain') :
    Inserts marks (a ++ b) offset (first ++ second) (wrapped ++ wrapped') (plain ++ plain') where
  sites := by
    rw [markedSpans_append]
    refine List.Perm.trans ?_ (ha.sites.append hb.sites)
    simp only [List.append_assoc]
    refine List.Perm.append_left _ ?_
    rw [← List.append_assoc, ← List.append_assoc]
    exact List.perm_append_comm.append_right _
  opens := by
    rw [offsets_append, List.map_append]
    exact ha.opens.append hb.opens
  closes := by
    rw [offsets_append, List.map_append]
    exact ha.closes.append hb.closes
  awaits := by
    rw [offsets_append, List.map_append]
    exact ha.awaits.append hb.awaits
  asyncs := by
    rw [offsets_append, markedSpans_append, List.map_append]
    exact ha.asyncs.append hb.asyncs

theorem inserts_token (marks : Marks) (offset : Nat) (pending : Pending) (token : Token) :
    Inserts marks [] offset (weaveToken pending token).1 [] [] := by
  have hnone (fragment : Fragment) (hlink : fragment ≠ .link) (hquestion : fragment ≠ .question) :
      offsets fragment offset (weaveToken pending token).1 = [] := by
    unfold weaveToken
    split
    · rfl
    · split
      · rfl
      · split <;> simp [offsets, hlink.symm, hquestion.symm]
  constructor
  · exact List.Perm.refl []
  all_goals
    rw [hnone _ (by decide) (by decide)]
    exact List.Perm.refl []

theorem offsets_opening (offset : Nat) (isSite isWrapped isPromoted isGlued : Bool) :
    offsets .openAwait offset (opening isSite isWrapped isPromoted isGlued) =
        (if isSite && isWrapped then [offset] else []) ∧
      offsets .close offset (opening isSite isWrapped isPromoted isGlued) = [] ∧
      offsets .await offset (opening isSite isWrapped isPromoted isGlued) =
        (if isSite && !isWrapped then [offset] else []) ∧
      offsets .async offset (opening isSite isWrapped isPromoted isGlued) =
        (if isPromoted then [offset] else []) := by
  cases isSite <;> cases isWrapped <;> cases isPromoted <;> cases isGlued <;>
    exact ⟨rfl, rfl, rfl, rfl⟩

theorem extent_opening (isSite isWrapped isPromoted isGlued : Bool) :
    extent (opening isSite isWrapped isPromoted isGlued) = 0 := by
  rw [extent, sourceTokens_opening]
  rfl

theorem Inserts.node {marks : Marks} {inner : List Occurrence} {own : Occurrence} {offset : Nat}
    {pieces : List Piece} {wrapped plain : List Span}
    (h : Inserts marks inner offset pieces wrapped plain)
    (hspan : own.span = ⟨offset, offset + extent pieces⟩) (isBase isGlued : Bool) :
    let isSite := own.kind.isSite && marks.isSuspended own.span
    let isPromoted := own.kind.isFunction && marks.isPromoted own.span
    ∃ wrapped' plain', Inserts marks (own :: inner) offset
      (opening isSite (isSite && isBase) isPromoted isGlued ++ pieces ++
        if isSite && isBase then [.inserted .close] else []) wrapped' plain' := by
  intro isSite isPromoted
  have hsites : markedSpans NodeKind.isSite marks.suspensions (own :: inner) =
      (if isSite then [own.span] else []) ++
        markedSpans NodeKind.isSite marks.suspensions inner := markedSpans_cons ..
  have hpromotions : markedSpans NodeKind.isFunction marks.promoted (own :: inner) =
      (if isPromoted then [own.span] else []) ++
        markedSpans NodeKind.isFunction marks.promoted inner := markedSpans_cons ..
  obtain ⟨hopens, hcloses, hawaits, hasyncs⟩ :=
    offsets_opening offset isSite (isSite && isBase) isPromoted isGlued
  have hextent := extent_opening isSite (isSite && isBase) isPromoted isGlued
  refine ⟨(if isSite && isBase then [own.span] else []) ++ wrapped,
    (if isSite && !isBase then [own.span] else []) ++ plain, ?_, ?_, ?_, ?_, ?_⟩
  · rw [hsites]
    cases isSite <;> cases isBase
    · exact h.sites
    · exact h.sites
    · exact List.perm_middle.trans (h.sites.cons own.span)
    · exact h.sites.cons own.span
  · rw [List.append_assoc, offsets_append, hopens, hextent, offsets_append, hspan]
    cases isSite <;> cases isBase
    · simpa [offsets] using h.opens
    · simpa [offsets] using h.opens
    · simpa [offsets] using h.opens
    · simpa [offsets] using h.opens
  · rw [List.append_assoc, offsets_append, hcloses, hextent, offsets_append, hspan]
    cases isSite <;> cases isBase
    · simpa [offsets] using h.closes
    · simpa [offsets] using h.closes
    · simpa [offsets] using h.closes
    · exact (List.perm_append_singleton _ _).trans (h.closes.cons (offset + extent pieces))
  · rw [List.append_assoc, offsets_append, hawaits, hextent, offsets_append, hspan]
    cases isSite <;> cases isBase
    · simpa [offsets] using h.awaits
    · simpa [offsets] using h.awaits
    · simpa [offsets] using h.awaits
    · simpa [offsets] using h.awaits
  · rw [List.append_assoc, offsets_append, hasyncs, hextent, offsets_append, hpromotions, hspan]
    have hbehind : offsets .async (offset + 0 + extent pieces)
        (if isSite && isBase then [.inserted .close] else []) = [] := by split <;> rfl
    rw [hbehind, List.append_nil]
    cases isPromoted
    · exact h.asyncs
    · exact h.asyncs.cons offset

theorem pieces_weaveTree (marks : Marks) (place : Place) (offset : Nat) (pending : Pending)
    (kind : NodeKind) (children : List Tree) :
    let isSite := kind.isSite && marks.isSuspended ⟨offset, offset + Tree.widthAll children⟩
    let isPromoted := kind.isFunction && marks.isPromoted ⟨offset, offset + Tree.widthAll children⟩
    ∃ isGlued entered, (weaveTree marks place offset pending (.node kind children)).1 =
      opening isSite (isSite && place.isBase) isPromoted isGlued ++
        (weaveTrees marks kind children none offset entered children).1 ++
          if isSite && place.isBase then [.inserted .close] else [] := by
  simp only [weaveTree]
  refine ⟨if kind = .exprStmt then place.isGlued else pending.isGlued, { pending with
    isGlued := (if kind = .exprStmt then place.isGlued else pending.isGlued) &&
      !(kind.isSite && marks.isSuspended ⟨offset, offset + Tree.widthAll children⟩) &&
      !(kind.isFunction && marks.isPromoted ⟨offset, offset + Tree.widthAll children⟩) }, ?_⟩
  split
  · rfl
  · rw [List.append_nil]

mutual

theorem inserts_weaveTree (marks : Marks) (around : Setting) (place : Place) (offset : Nat)
    (pending : Pending) (tree : Tree) :
    ∃ wrapped plain, Inserts marks (tree.occurrences around offset)
      offset (weaveTree marks place offset pending tree).1 wrapped plain := by
  match tree with
  | .leaf token => exact ⟨[], [], inserts_token marks offset pending token⟩
  | .node kind children =>
      obtain ⟨isGlued, entered, hpieces⟩ :=
        pieces_weaveTree marks place offset pending kind children
      obtain ⟨wrapped, plain, hinner⟩ := inserts_weaveTrees marks around kind
        ⟨offset, offset + Tree.widthAll children⟩ children none offset entered children
      have hextent : extent (weaveTrees marks kind children none offset entered children).1 =
          Tree.widthAll children := by
        rw [extent, sourceTokens_weaveTrees, byteLength_leavesAll]
      rw [hpieces]
      exact hinner.node (by rw [hextent]; rfl) place.isBase isGlued

theorem inserts_weaveTrees (marks : Marks) (around : Setting) (kind : NodeKind) (span : Span)
    (siblings : List Tree) (previous : Option Tree) (offset : Nat) (pending : Pending)
    (trees : List Tree) :
    ∃ wrapped plain, Inserts marks (Tree.occurrencesIn around kind span offset trees)
      offset (weaveTrees marks kind siblings previous offset pending trees).1 wrapped plain := by
  match trees with
  | [] => exact ⟨[], [], by constructor <;> exact List.Perm.refl []⟩
  | tree :: rest =>
      obtain ⟨wrapped, plain, hfirst⟩ := inserts_weaveTree marks
        (around.inside kind span tree.nodeKind?)
          (Place.under kind siblings previous) offset pending tree
      have hextent : extent (weaveTree marks
          (Place.under kind siblings previous) offset pending tree).1 =
          tree.width := by
        rw [extent, sourceTokens_weaveTree, byteLength_leaves]
      obtain ⟨wrapped', plain', hrest⟩ := inserts_weaveTrees marks around kind span siblings
        (if tree.isNode then some tree else previous) (offset + tree.width)
        (weaveTree marks (Place.under kind siblings previous) offset pending tree).2 rest
      rw [← hextent] at hrest
      refine ⟨wrapped ++ wrapped', plain ++ plain', ?_⟩
      rw [Tree.occurrencesIn, weaveTrees, ← hextent]
      exact hfirst.append hrest

end

/-! ## Fragments and what follows them -/

/-- The piece that may follow a fragment. -/
def Fragment.Introduces : Fragment → Option Piece → Prop
  | .semicolon, next => next = some (.inserted .openAwait)
  | .question, next => ∃ token, next = some (.source token) ∧ token.kind = .dot
  | .link, next =>
      ∃ token, next = some (.source token) ∧ (token.kind = .lBracket ∨ token.kind = .lParen)
  | _, _ => True

/-- Every fragment stands in front of what it introduces. -/
def Fitting : List Piece → Prop
  | [] => True
  | .source _ :: rest => Fitting rest
  | .inserted fragment :: rest => fragment.Introduces rest.head? ∧ Fitting rest

theorem Fragment.Introduces.append {fragment : Fragment} {a b : List Piece}
    (h : fragment.Introduces a.head?) : fragment.Introduces (a ++ b).head? := by
  cases a with
  | cons piece rest => exact h
  | nil =>
      cases fragment with
      | semicolon => cases h
      | question =>
          obtain ⟨token, hnone, -⟩ := h
          cases hnone
      | link =>
          obtain ⟨token, hnone, -⟩ := h
          cases hnone
      | await => exact True.intro
      | openAwait => exact True.intro
      | close => exact True.intro
      | async => exact True.intro

theorem Fitting.append {a b : List Piece} (ha : Fitting a) (hb : Fitting b) : Fitting (a ++ b) := by
  induction a with
  | nil => exact hb
  | cons piece rest ih =>
      cases piece with
      | source token => exact ih ha
      | inserted fragment => exact ⟨ha.1.append, ih ha.2⟩

theorem fitting_token (pending : Pending) (token : Token) :
    Fitting (weaveToken pending token).1 := by
  unfold weaveToken
  split
  · exact True.intro
  · split
    · exact True.intro
    · split
      next hkind => exact ⟨⟨token, rfl, hkind⟩, True.intro⟩
      next hkind => exact ⟨⟨token, rfl, .inl hkind⟩, True.intro⟩
      next hkind => exact ⟨⟨token, rfl, .inr hkind⟩, True.intro⟩
      next => exact True.intro

theorem fitting_opening (isSite isWrapped isPromoted isGlued : Bool) :
    Fitting (opening isSite isWrapped isPromoted isGlued) := by
  cases isSite <;> cases isWrapped <;> cases isPromoted <;> cases isGlued <;>
    simp [opening, Fitting, Fragment.Introduces]

mutual

theorem fitting_weaveTree (marks : Marks) (place : Place) (offset : Nat) (pending : Pending)
    (tree : Tree) : Fitting (weaveTree marks place offset pending tree).1 := by
  match tree with
  | .leaf token => exact fitting_token pending token
  | .node kind children =>
      obtain ⟨isGlued, entered, hpieces⟩ :=
        pieces_weaveTree marks place offset pending kind children
      have hinner := fitting_weaveTrees marks kind children none offset entered children
      rw [hpieces]
      refine ((fitting_opening _ _ _ isGlued).append hinner).append ?_
      split
      · exact ⟨True.intro, True.intro⟩
      · exact True.intro

theorem fitting_weaveTrees (marks : Marks) (kind : NodeKind) (siblings : List Tree)
    (previous : Option Tree) (offset : Nat) (pending : Pending) (trees : List Tree) :
    Fitting (weaveTrees marks kind siblings previous offset pending trees).1 := by
  match trees with
  | [] => exact True.intro
  | tree :: rest => exact (fitting_weaveTree ..).append (fitting_weaveTrees ..)

end

theorem fitting_weave (marks : Marks) (tree : Tree) : Fitting (weave marks tree) :=
  fitting_weaveTree marks {} 0 {} tree

end ShellAwait.Output

namespace ShellAwait

open Text Analysis Output

variable {catalogue : Catalogue} {source : List Char}

/-! ## Nodes and marks -/

theorem markedSpans_perm {kinds : NodeKind → Bool} {marked : List Span} {nodes : List Occurrence}
    (hkinds : ∀ {kind}, kinds kind = true → kind.isKeyed = true) (hdistinct : Distinct nodes)
    (hmarked : Span.InSourceOrder marked)
    (hnodes : ∀ span ∈ marked, ∃ o ∈ nodes, kinds o.kind = true ∧ o.span = span) :
    (markedSpans kinds marked nodes).Perm marked := by
  have hnodup : (markedSpans kinds marked nodes).Nodup := by
    refine hdistinct.nodup List.filter_sublist.subperm fun o ho => ?_
    exact hkinds (Bool.and_eq_true_iff.mp (List.mem_filter.mp ho).2).1
  refine (List.perm_ext_iff_of_nodup hnodup hmarked.nodup).mpr fun span => ?_
  simp only [markedSpans, List.mem_map, List.mem_filter, Bool.and_eq_true, hmarked.foundIn_iff]
  constructor
  · rintro ⟨o, ⟨-, -, hspan⟩, rfl⟩
    exact hspan
  · intro hspan
    obtain ⟨o, ho, hkind, rfl⟩ := hnodes span hspan
    exact ⟨o, ⟨ho, hkind, hspan⟩, rfl⟩

theorem suspensions_perm {findings : Findings}
    (h : (analyse catalogue (parse source)).1 = .ok findings) :
    (markedSpans NodeKind.isSite findings.suspensions (parse source).tree.nodes).Perm
      findings.suspensions := by
  obtain ⟨trace, haccounts⟩ := exists_accounts h
  refine markedSpans_perm NodeKind.isKeyed_of_isSite haccounts.distinct (inSourceOrder_marks h).1 ?_
  intro span hspan
  obtain ⟨p, hp, hsuspended, rfl⟩ := (haccounts.suspended span).mp hspan
  exact ⟨p.1, haccounts.mem_nodes hp, (suspended_iff.mp hsuspended).1, rfl⟩

theorem promoted_perm {findings : Findings}
    (h : (analyse catalogue (parse source)).1 = .ok findings) :
    (markedSpans NodeKind.isFunction findings.promoted (parse source).tree.nodes).Perm
      findings.promoted := by
  obtain ⟨trace, haccounts⟩ := exists_accounts h
  refine markedSpans_perm NodeKind.isKeyed_of_isFunction haccounts.distinct (inSourceOrder_marks h).2 ?_
  intro span hspan
  obtain ⟨q, hq, -, -, rfl⟩ := (haccounts.promoted span).mp hspan
  exact ⟨q.1, haccounts.mem_functions hq, Trace.isFunction_of_mem haccounts.placed hq, rfl⟩

/-! ## The output of a script -/

/-- The output is the source with insertions: an awaited node has one marker, a promoted function
one, and what an awaited node in parentheses opens is closed where the node ends. -/
structure Compiled.OnlyInserts (compiled : Compiled) (source : List Char) : Prop where
  output : compiled.output.toList = compiled.pieces.flatMap Piece.text
  tokens : sourceTokens compiled.pieces = Token.tokenize source
  text : Token.textOf (Token.tokenize source) = source
  fitting : Fitting compiled.pieces
  count_await : compiled.pieces.count (.inserted .await) +
    compiled.pieces.count (.inserted .openAwait) =
    compiled.findings.suspensions.length
  count_async : compiled.pieces.count (.inserted .async) = compiled.findings.promoted.length
  places : ∃ wrapped plain : List Span, (wrapped ++ plain).Perm compiled.findings.suspensions ∧
    (offsets .openAwait 0 compiled.pieces).Perm (wrapped.map Span.start) ∧
    (offsets .close 0 compiled.pieces).Perm (wrapped.map Span.stop) ∧
    (offsets .await 0 compiled.pieces).Perm (plain.map Span.start) ∧
    (offsets .async 0 compiled.pieces).Perm (compiled.findings.promoted.map Span.start)

theorem compile_eq_ok {compiled : Compiled} (h : compile catalogue source = .ok compiled) :
    ∃ findings, (analyse catalogue (parse source)).1 = .ok findings ∧
      compiled = ⟨findings, weave findings.toMarks (parse source).tree⟩ := by
  unfold compile compileLogged at h
  generalize parse source = parsed at h ⊢
  rcases hanalyse : analyse catalogue parsed with ⟨failure | findings, log⟩
  · simp only [hanalyse] at h
    cases h
  · simp only [hanalyse] at h
    cases h
    exact ⟨findings, rfl, rfl⟩

/-- Weaving a tree whose marked nodes are those of the findings, each once. -/
theorem onlyInserts_weave {findings : Findings} {tree : Tree}
    (hleaves : tree.leaves = Token.tokenize source)
    (hsites : (markedSpans NodeKind.isSite findings.suspensions tree.nodes).Perm
      findings.suspensions)
    (hpromoted : (markedSpans NodeKind.isFunction findings.promoted tree.nodes).Perm
      findings.promoted) :
    Compiled.OnlyInserts ⟨findings, weave findings.toMarks tree⟩ source := by
  obtain ⟨wrapped, plain, hinserts⟩ := inserts_weaveTree findings.toMarks {} {} 0 {} tree
  have hall := hinserts.sites.trans hsites
  have hasyncs := hinserts.asyncs.trans (hpromoted.map Span.start)
  refine ⟨String.toList_ofList, ?_, Token.textOf_tokenize source,
    fitting_weave findings.toMarks tree,
    ?_, ?_, wrapped, plain, hall, hinserts.opens, hinserts.closes, hinserts.awaits, hasyncs⟩
  · rw [sourceTokens_weave, hleaves]
  · rw [← length_offsets .await 0, ← length_offsets .openAwait 0, ← hall.length_eq, weave,
      hinserts.awaits.length_eq, hinserts.opens.length_eq]
    simp [Nat.add_comm]
  · rw [← length_offsets .async 0, weave, hasyncs.length_eq, List.length_map]

theorem compile_only_inserts {compiled : Compiled} (h : compile catalogue source = .ok compiled) :
    compiled.OnlyInserts source := by
  obtain ⟨findings, hanalyse, rfl⟩ := compile_eq_ok h
  exact onlyInserts_weave (Tree.leaves_parse source) (suspensions_perm hanalyse)
    (promoted_perm hanalyse)

/-- A site whose result is used at once, and one that needs no parentheses. -/
theorem compile_only_inserts_loads : ∃ compiled : Compiled,
    compile loading "function f() { return load().x + load(); }".toList = .ok compiled ∧
      render compiled.pieces =
        "async function f() { return (await load()).x + await load(); }".toList ∧
      compiled.OnlyInserts "function f() { return load().x + load(); }".toList := by
  obtain ⟨compiled, h, htext⟩ : ∃ compiled : Compiled,
      compile loading "function f() { return load().x + load(); }".toList = .ok compiled ∧
        render compiled.pieces =
          "async function f() { return (await load()).x + await load(); }".toList :=
    exists_of_map_toOption (by decide +kernel)
  exact ⟨compiled, h, htext, compile_only_inserts h⟩

end ShellAwait
