import ShellAwait.Proofs.Grammar.Clean

/-! # The rules of scripts

Every named part of the grammar makes one well-shaped node in each run without a problem, and the
depth of references never runs out on the way: a part refers to one of no smaller rank only behind
a token.
-/

namespace ShellAwait.Grammar

open ShellAwait.Tree Rule

variable {rule body : Rule} {k : Nat} {kind : NodeKind} {s : State} {base : List Tree}

namespace Category

/-- Between two tokens a part refers only to parts of smaller rank. -/
def rank : Category → Nat
  | .statement => 7
  | .expression => 6
  | .assignment => 5
  | .binary _ => 4
  | .unary => 3
  | .primary => 2
  | .newExpression => 1
  | .pattern => 0

/-- The nodes that a part may be. -/
def admits : Category → NodeKind → Bool
  | .statement | .pattern => fun kind => !kind.mayBeEmpty
  | _ => NodeKind.isExpression

/-- Where a part may be referred to. -/
def Starts (category : Category) (v : View) : Prop := category = .newExpression → v.kind = .newKw

theorem solid_of_isExpression (kind : NodeKind) (h : kind.isExpression = true) :
    kind.mayBeEmpty = false := by
  revert h
  cases kind <;> decide

theorem solid_of_admits {category : Category} (kind : NodeKind) (h : category.admits kind = true) :
    kind.mayBeEmpty = false := by
  unfold admits at h
  split at h
  · simpa using h
  · simpa using h
  · exact solid_of_isExpression kind h

end Category

/-- What a rule may rely on that is run with `n` tokens ahead. -/
structure Ready (r : Reader) (n rank : Nat) : Prop where
  /-- Parts of smaller rank may be referred to anywhere. -/
  low : ∀ category (s : State), category.rank < rank → s.ahead.length ≤ n → category.Starts s.view →
    r.Makes category.admits (call category) s s.done
  /-- Every part may be referred to behind the first token. -/
  deep : ∀ category (s : State), s.ahead.length < n → category.Starts s.view →
    r.Makes category.admits (call category) s s.done

/-- What a rule yields behind the first of `n` tokens. -/
def Reader.Deep (r : Reader) (n : Nat) (rule : Rule) (least : Nat) : Prop :=
  ∀ s : State, s.ahead.length < n → r.Yields rule s least

namespace Reader

variable {r : Reader} {n : Nat}

theorem Deep.mono {j : Nat} (h : r.Deep n rule k) (hle : j ≤ k) : r.Deep n rule j :=
  fun s hs => (h s hs).mono hle

theorem deep_skip : r.Deep n skip 0 := fun _ _ => yields_skip

theorem deep_fail : r.Deep n fail 0 := fun _ _ => yields_fail

theorem deep_report {problem : Problem} {least : Nat} : r.Deep n (report problem) least :=
  fun _ _ => yields_report

theorem deep_eat {kind : TokenKind} (hsolid : kind.isSolid = true) : r.Deep n (eat kind) 0 :=
  fun _ _ => yields_eat hsolid

theorem deep_expect (kind : TokenKind) (hsolid : kind.isSolid = true) : r.Deep n (expect kind) 2 :=
  fun _ _ => yields_expect hsolid

theorem Deep.seq {first second : Rule} {j : Nat} (hfirst : r.Deep n first j)
    (hsecond : r.Deep n second k) : r.Deep n (first ++ second) (j + k) :=
  fun s hs => yields_seq (hfirst s hs) fun u hu => hsecond u (Nat.lt_of_le_of_lt hu.length_le hs)

theorem deep_look {choose : View → Rule} (h : ∀ v, r.Deep n (choose v) k) :
    r.Deep n (look choose) k := fun s hs => yields_look (h s.view s hs)

theorem Deep.succeed (h : r.Deep n rule k) : r.Deep n (succeed rule) k :=
  fun s hs => yields_succeed (h s hs)

theorem Deep.whenNext {kind : TokenKind} (h : r.Deep n rule 0) : r.Deep n (whenNext kind rule) 0 :=
  fun s hs => yields_whenNext fun _ => h s hs

theorem Deep.withNoIn {noIn : Bool} (h : r.Deep n body k) : r.Deep n (withNoIn noIn body) k :=
  fun _ hs => yields_withNoIn (h _ hs)

theorem Deep.many {goOn : View → Bool} {round : Rule} (h : r.Deep n round 0) :
    r.Deep n (many goOn round) 0 :=
  fun _ hs => yields_many fun u hu => h u (Nat.lt_of_le_of_lt hu hs)

theorem Deep.node {least : Nat} (h : r.Deep n body least) (hplain : kind.isPlain = true)
    (hleast : kind.least ≤ least) :
    r.Deep n (.node kind body) (if kind.mayBeEmpty then 0 else 1) := by
  intro s hs b t hrun hclean
  have hmade := makes_node (h (s.enter kind []) hs) hplain hleast b t hrun hclean
  split
  · exact hmade.added (Nat.zero_le 1) (fun h => absurd h Nat.zero_ne_one)
  · rename_i hsolid
    refine hmade.added (Nat.le_refl 1) fun _ k hk => ?_
    rw [beq_iff_eq.mp hk]
    simpa using hsolid

theorem Deep.bracket {what : Enclosure} (h : r.Deep n body 0) (hs : s.ahead.length ≤ n) :
    r.Yields (bracket what body) s 2 :=
  yields_bracket fun u hu => h u (Nat.lt_of_lt_of_le hu hs)

theorem least_le_two (kind : NodeKind) : kind.least ≤ 2 := by
  unfold NodeKind.least
  split
  · omega
  · split <;> omega

theorem Deep.enclosed {what : Enclosure} (h : r.Deep n body 0) (hplain : kind.isPlain = true)
    (hs : s.ahead.length ≤ n) : r.Makes (· == kind) (.node kind (.bracket what body)) s s.done :=
  makes_node (h.bracket (s := s.enter kind []) hs) hplain (least_le_two kind)

theorem deep_separator {closer : TokenKind} : r.Deep n (separator closer) 0 := by
  refine deep_look fun v => ?_
  split
  · exact deep_skip
  · exact (deep_expect .comma rfl).mono (Nat.zero_le 2)

theorem Deep.separated {closer : TokenKind} {element : Rule} (h : r.Deep n element 0) :
    r.Deep n (separated closer element) 0 := (h.seq deep_separator).many

theorem Deep.separatedWithHoles {closer : TokenKind} {element : Rule} (h : r.Deep n element 0) :
    r.Deep n (separatedWithHoles closer element) 0 := by
  refine Deep.many (deep_look fun v => ?_)
  split
  · exact deep_eat rfl
  · exact h.seq deep_separator

theorem makes_memberName : r.Makes (· == .memberName) memberName s s.done := by
  refine makes_node (k := 2) (yields_look ?_) rfl (least_le_two _)
  split
  · rename_i hnext
    refine yields_eat_next ?_ rfl
    unfold View.next at hnext
    revert hnext
    cases (s.enter .memberName []).view.kind <;> decide
  · exact yields_report

theorem Yields.follow {first second : Rule} {j : Nat} (hfirst : r.Yields first s (j + 1))
    (hs : s.ahead.length ≤ n) (hsecond : r.Deep n second k) :
    r.Yields (first ++ second) s (j + 1 + k) :=
  yields_seq hfirst fun u hu =>
    hsecond u (Nat.lt_of_lt_of_le (hu.length_lt (Nat.le_add_left 1 j)) hs)

theorem makes_node_next {token : TokenKind} {rest : Rule} (hplain : kind.isPlain = true)
    (hsolid : token.isSolid = true) (hnext : s.view.kind = token) (hs : s.ahead.length ≤ n)
    (hrest : r.Deep n rest k) : r.Makes (· == kind) (.node kind (eat token ++ rest)) s s.done :=
  makes_node ((yields_eat_next (s := s.enter kind []) hsolid hnext).follow hs hrest) hplain
    (Nat.le_trans (least_le_two kind) (Nat.le_add_right 2 k))

theorem makes_wrap_next {inner : NodeKind} {token : TokenKind} {rest : Rule} {children : List Tree}
    (hshape : (node inner children).WellShaped) (hdone : s.done = .node inner children :: base)
    (hinner : inner.mayBeEmpty = false) (hplain : kind.isPlain = true)
    (hsolid : token.isSolid = true) (hnext : s.view.kind = token) (hs : s.ahead.length ≤ n)
    (hrest : r.Deep n rest k) : r.Makes (· == kind) (wrap kind (eat token ++ rest)) s base := by
  have hbody := (yields_eat_next (r := r)
      (s := s.enter kind [.node inner children]) hsolid hnext).follow
    hs hrest
  have hleast := least_le_two kind
  exact makes_wrap hshape hdone hinner hbody hplain (by omega)

theorem Makes.of_kind {admits : NodeKind → Bool} (h : r.Makes (· == kind) rule s base)
    (hkind : admits kind = true) : r.Makes admits rule s base :=
  h.mono fun k hk => by rwa [beq_iff_eq.mp hk]

theorem Makes.solid (h : r.Makes (· == kind) rule s s.done) (hkind : kind.mayBeEmpty = false) :
    r.Yields rule s 1 :=
  h.yields fun k hk => by rwa [beq_iff_eq.mp hk]

end Reader

namespace Ready

open Reader

variable {r : Reader} {n rank : Nat} (ready : Ready r n rank)

include ready

theorem deep_call (category : Category) (hcategory : category ≠ .newExpression) :
    r.Deep n (call category) 1 := fun s hs =>
  (ready.deep category s hs fun h => absurd h hcategory).yields Category.solid_of_admits

/-! ## Patterns and functions -/

theorem makes_propertyKey (hs : s.ahead.length ≤ n) :
    r.Makes (fun kind => kind == .propName || kind == .computedName) propertyKey s s.done := by
  refine makes_look ?_
  split
  · have hbody := ((ready.deep_call .assignment nofun).mono (Nat.zero_le 1)).succeed
    exact (hbody.enclosed rfl hs).of_kind rfl
  · split
    · rename_i hstarts
      have hsolid : s.view.kind.isSolid = true := by
        unfold View.startsKey View.nextIn at hstarts
        revert hstarts
        cases s.view.kind <;> decide
      exact (makes_node (yields_eat_next hsolid rfl) rfl (least_le_two _)).of_kind rfl
    · exact makes_report

theorem deep_propertyKey : r.Deep n propertyKey 1 := fun _ hs =>
  (ready.makes_propertyKey (Nat.le_of_lt hs)).yields fun kind => by cases kind <;> decide

theorem makes_patternWithDefault (hs : s.ahead.length < n) :
    r.Makes (fun kind => !kind.mayBeEmpty) patternWithDefault s s.done := by
  refine makes_andThen (ready.deep .pattern s hs nofun) Category.solid_of_admits ?_
  intro u kind children hu hkind hshape hdone
  refine makes_look ?_
  split
  · have hvalue : r.Deep n (eat .eq ++ call .assignment) 1 :=
      ((deep_eat rfl).seq (ready.deep_call .assignment nofun))
    exact (makes_wrap hshape hdone (Category.solid_of_admits kind hkind)
      (hvalue (u.enter .assignPat _) (Nat.lt_trans hu hs)) rfl (by decide)).of_kind rfl
  · exact makes_skip hkind hshape hdone

theorem deep_patternWithDefault : r.Deep n patternWithDefault 1 := fun _ hs =>
  (ready.makes_patternWithDefault hs).yields fun kind hkind => by simpa using hkind

theorem deep_restPattern : r.Deep n restPattern 1 :=
  ((deep_eat rfl).seq (ready.deep_call .pattern nofun)).node rfl (Nat.le_refl 1)

theorem makes_pattern (hs : s.ahead.length ≤ n) :
    r.Makes (fun kind => !kind.mayBeEmpty) pattern s s.done := by
  refine makes_look ?_
  split
  · rename_i hnext
    exact (makes_node (yields_eat_next rfl hnext) rfl (least_le_two _)).of_kind rfl
  · have helement : r.Deep n
        (look fun v => if v.next .dotDotDot then restPattern else patternWithDefault) 1 := by
      refine deep_look fun v => ?_
      split
      · exact ready.deep_restPattern
      · exact ready.deep_patternWithDefault
    exact ((helement.mono (Nat.zero_le 1)).separatedWithHoles.enclosed rfl hs).of_kind rfl
  · have hproperty : r.Deep n patternProperty 1 := by
      refine (deep_look (k := 1) fun v => ?_).node rfl (Nat.le_refl 1)
      split
      · exact ready.deep_patternWithDefault
      · exact ((ready.deep_propertyKey.seq (deep_expect .colon rfl)).seq
          ready.deep_patternWithDefault).mono (by omega)
    have helement : r.Deep n
        (look fun v => if v.next .dotDotDot then restPattern else patternProperty) 1 := by
      refine deep_look fun v => ?_
      split
      · exact ready.deep_restPattern
      · exact hproperty
    exact ((helement.mono (Nat.zero_le 1)).separated.enclosed rfl hs).of_kind rfl
  · exact makes_report

theorem makes_block (hs : s.ahead.length ≤ n) : r.Makes (· == .block) block s s.done := by
  refine makes_node (k := 2) (yields_look ?_) rfl (least_le_two _)
  split
  · exact ((ready.deep_call .statement nofun).mono (Nat.zero_le 1)).many.bracket hs
  · exact yields_seq (j := 2) yields_report fun _ _ => yields_eat rfl

theorem deep_block : r.Deep n block 1 := fun _ hs => (ready.makes_block (Nat.le_of_lt hs)).solid rfl

theorem deep_initializer : r.Deep n initializer 0 :=
  (((deep_eat rfl).seq (ready.deep_call .assignment nofun)).mono (Nat.zero_le _)).whenNext

theorem makes_parameterList (hs : s.ahead.length ≤ n) :
    r.Makes (· == .paramList) parameterList s s.done := by
  have hparameter : r.Deep n parameter 1 :=
    (((deep_eat rfl).seq (ready.deep_call .pattern nofun)).seq
      ready.deep_initializer).node rfl (Nat.le_refl 1)
  exact (hparameter.mono (Nat.zero_le 1)).separated.enclosed rfl hs

theorem deep_parameterList : r.Deep n parameterList 1 := fun _ hs =>
  (ready.makes_parameterList (Nat.le_of_lt hs)).solid rfl

theorem yields_functionTail (needsName : Bool) (hs : s.ahead.length ≤ n) :
    r.Yields (functionTail needsName) s 2 := by
  have hbody : r.Deep n (unlessFailed block) 0 := by
    refine deep_look fun v => ?_
    split
    · exact deep_skip
    · exact ready.deep_block.mono (Nat.zero_le 1)
  have hrest := (ready.deep_parameterList.seq hbody).mono (Nat.zero_le _)
  refine yields_seq (j := 2) (k := 0) (yields_seq (j := 0) (yields_look ?_) fun u _ =>
    yields_expect rfl) ?_
  · split
    · exact yields_eat rfl
    · exact yields_skip
  · intro u hu
    refine yields_look ?_
    have hlength := Nat.lt_of_lt_of_le (hu.length_lt (by omega)) hs
    split
    · exact yields_report
    · split
      · exact ((deep_eat rfl).seq hrest) u hlength
      · split
        · exact yields_report
        · exact hrest u hlength

theorem makes_functionExpr (hs : s.ahead.length ≤ n) :
    r.Makes (· == .functionExpr) functionExpr s s.done :=
  makes_node (ready.yields_functionTail false (s := s.enter _ []) hs) rfl (Nat.le_refl 2)

theorem makes_functionDecl (hs : s.ahead.length ≤ n) :
    r.Makes (· == .functionDecl) functionDecl s s.done :=
  makes_node (ready.yields_functionTail true (s := s.enter _ []) hs) rfl (Nat.le_refl 2)

theorem makes_arrow (hs : s.ahead.length ≤ n) : r.Makes (· == .arrow) arrow s s.done := by
  refine makes_node (k := 2) ?_ rfl (Nat.le_refl 2)
  refine yields_seq (j := 2) (k := 0)
    (yields_seq (j := 0) (yields_seq (j := 0) (k := 0) (yields_look ?_) ?_) fun u _ =>
      yields_expect rfl) ?_
  · split
    · exact yields_eat rfl
    · exact yields_skip
  · intro u hu
    refine yields_look ?_
    split
    · rename_i hnext
      have hname : r.Yields (.node .identPat (eat .ident))
          ((u.enter .paramList []).enter .param []) 1 :=
        (makes_node (s := (u.enter .paramList []).enter .param [])
          (yields_eat_next rfl (beq_iff_eq.mp hnext)) rfl (least_le_two _)).solid rfl
      have hparam := (makes_node hname rfl (Nat.le_refl 1)).solid rfl
      exact ((makes_node hparam rfl (Nat.le_refl 1)).solid rfl).mono (Nat.zero_le 1)
    · have hlength : u.ahead.length ≤ n := Nat.le_trans hu.length_le hs
      exact ((ready.makes_parameterList hlength).solid rfl).mono (Nat.zero_le 1)
  · intro u hu
    refine yields_look ?_
    have hlength : u.ahead.length < n := Nat.lt_of_lt_of_le (hu.length_lt (by omega)) hs
    split
    · exact (ready.deep_block u hlength).mono (Nat.zero_le 1)
    · exact (ready.deep_call .assignment nofun u hlength).mono (Nat.zero_le 1)

/-! ## Operands -/

theorem yields_indexTail (hs : s.ahead.length ≤ n) : r.Yields indexTail s 2 :=
  ((ready.deep_call .expression nofun).succeed.withNoIn.mono (Nat.zero_le 1)).bracket hs

theorem makes_spread (hs : s.ahead.length ≤ n) (hnext : s.view.kind = .dotDotDot) :
    r.Makes (· == .spreadElement) spread s s.done :=
  makes_node_next rfl rfl hnext hs (ready.deep_call .assignment nofun)

theorem deep_element : r.Deep n element 1 := by
  intro s hs
  refine yields_look ?_
  split
  · rename_i hnext
    exact (ready.makes_spread (Nat.le_of_lt hs) (beq_iff_eq.mp hnext)).solid rfl
  · exact ready.deep_call .assignment nofun s hs

theorem makes_argumentList (hs : s.ahead.length ≤ n) :
    r.Makes (· == .argList) argumentList s s.done :=
  ((ready.deep_element.seq (deep_eat rfl)).mono (Nat.zero_le _)).many.withNoIn.enclosed rfl hs

theorem makes_template (hs : s.ahead.length ≤ n) : r.Makes (· == .template) template s s.done := by
  have hpart : r.Deep n (look fun v => if v.next .templateContent then eat .templateContent
      else .node .interpolation (bracket .interpolation (succeed (call .expression)))) 0 := by
    refine deep_look fun v => ?_
    split
    · exact deep_eat rfl
    · intro u hu
      have hvalue := ((ready.deep_call .expression nofun).mono (Nat.zero_le 1)).succeed
      exact ((hvalue.enclosed rfl (Nat.le_of_lt hu)).solid rfl).mono (Nat.zero_le 1)
  have hparts : r.Deep n templateParts 0 := by
    refine deep_look fun v => ?_
    split
    · refine (hpart.seq hpart.succeed.many).seq (k := 0) (deep_look fun v => ?_)
      split
      · exact deep_fail
      · exact deep_skip
    · exact deep_skip
  exact hparts.enclosed rfl hs

/-! ## Links -/

theorem makes_tagged {children : List Tree} (hs : s.ahead.length ≤ n)
    (hkind : kind.isExpression = true) (hshape : (node kind children).WellShaped)
    (hdone : s.done = .node kind children :: base) :
    r.Makes (· == .taggedTemplate) (wrap .taggedTemplate template) s base := by
  refine makes_wrap_of hdone fun b t hrun hclean => ?_
  have hmade := ready.makes_template (s := s.enter .taggedTemplate
      [.node kind children]) hs b t hrun hclean
  obtain ⟨k, parts, hk, hparts, hinner⟩ := hmade.done
  rw [beq_iff_eq.mp hk] at hparts hinner
  rw [hmade.kind, hinner]
  refine ⟨rfl, ⟨⟨?_, fun _ => ⟨kind, children, parts, hkind, rfl⟩, nofun⟩, hshape, hparts, trivial⟩⟩
  simp only [State.enter, List.reverse_cons, List.reverse_nil, List.nil_append, List.cons_append,
    bulk,
    Category.solid_of_isExpression kind hkind]
  decide

theorem makes_link {children : List Tree} (hs : s.ahead.length < n)
    (hkind : kind.isExpression = true) (hshape : (node kind children).WellShaped)
    (hdone : s.done = .node kind children :: base) (hnext : s.view.nextIn linkKinds = true) :
    r.Makes NodeKind.isExpression link s base := by
  have hsolid := Category.solid_of_isExpression kind hkind
  have hle := Nat.le_of_lt hs
  have hname : r.Deep n memberName 1 := fun _ _ => makes_memberName.solid rfl
  have harguments : r.Deep n argumentList 1 := fun _ hu =>
    (ready.makes_argumentList (Nat.le_of_lt hu)).solid rfl
  have hindex : r.Deep n indexTail 2 := fun _ hu => ready.yields_indexTail (Nat.le_of_lt hu)
  refine makes_look ?_
  split
  · rename_i hdot
    exact (makes_wrap_next hshape hdone hsolid rfl rfl hdot hle hname).of_kind rfl
  · rename_i hdot
    split
    · exact (makes_wrap_next hshape hdone hsolid rfl rfl hdot hle harguments).of_kind rfl
    · exact (makes_wrap_next hshape hdone hsolid rfl rfl hdot hle hindex).of_kind rfl
    · exact (makes_wrap_next hshape hdone hsolid rfl rfl hdot hle hname).of_kind rfl
  · exact (makes_wrap hshape hdone hsolid (hindex _ hs) rfl (by decide)).of_kind rfl
  · exact (makes_wrap hshape hdone hsolid (harguments _ hs) rfl (by decide)).of_kind rfl
  · exact (ready.makes_tagged hle hkind hshape hdone).of_kind rfl
  · rename_i hdot hquestion hbracket hparen htemplate
    simp only [View.nextIn, linkKinds, List.contains_iff_mem, List.mem_cons, List.not_mem_nil,
      or_false] at hnext
    rcases hnext with h | h | h | h | h
    · exact absurd h hdot
    · exact absurd h hquestion
    · exact absurd h hbracket
    · exact absurd h hparen
    · exact absurd h htemplate

theorem makes_links {first : Rule} {goOn : View → Bool} (hs : s.ahead.length ≤ n)
    (hfirst : r.Makes NodeKind.isExpression first s s.done)
    (hgo : ∀ v, goOn v = true → v.nextIn linkKinds = true) :
    r.Makes NodeKind.isExpression (andThen first (many goOn link)) s s.done := by
  refine makes_andThen hfirst Category.solid_of_isExpression ?_
  intro u kind children hu hkind hshape hdone
  refine makes_many hkind hshape hdone ?_
  intro v kind children hv hkind hshape hdone hround
  exact ready.makes_link (by omega) hkind hshape hdone (hgo v.view hround)

/-! ## Object literals -/

theorem makes_keyed (hs : s.ahead.length ≤ n) :
    r.Makes (fun kind => kind == .property || kind == .method)
      (.node .property (propertyKey ++ look fun v =>
        if v.next .lParen then become .method ++ parameterList ++ block
        else expect .colon ++ call .assignment)) s s.done := by
  refine makes_node_of fun b t hrun hclean => ?_
  obtain ⟨c, u, hu, hreport, hrest⟩ := run_seq hrun hclean
  have hkey := (ready.makes_propertyKey (s := s.enter .property []) hs).yields
    (fun kind => by cases kind <;> decide) c u hu hreport
  have hlength : u.ahead.length < n := Nat.lt_of_lt_of_le (hkey.length_lt (Nat.le_refl 1)) hs
  have hchosen : r.run (if u.view.next .lParen then become .method ++ parameterList ++ block
      else expect .colon ++ call .assignment) u = (b, t) := hrest
  split at hchosen
  · have hbody := (ready.deep_parameterList.seq ready.deep_block) { u with kind := .method } hlength
    have hadded := (hkey.become .method).trans (hbody b t hchosen hclean)
    have hleast : NodeKind.method.least ≤ 3 := by decide
    exact ⟨by rw [hadded.kind]; rfl, hadded.wellShaped trivial rfl hleast⟩
  · have hvalue : r.Deep n (expect .colon ++ call .assignment) (2 + 1) :=
      (deep_expect .colon rfl).seq (ready.deep_call .assignment nofun)
    have hadded := hkey.trans (hvalue u hlength b t hchosen hclean)
    have hleast : NodeKind.property.least ≤ 4 := by decide
    exact ⟨by rw [hadded.kind]; rfl, hadded.wellShaped trivial rfl hleast⟩

theorem deep_property : r.Deep n property 0 := by
  intro s hs
  have hle := Nat.le_of_lt hs
  refine yields_look ?_
  split
  · rename_i hnext
    exact ((ready.makes_spread hle (beq_iff_eq.mp hnext)).solid rfl).mono (Nat.zero_le 1)
  · split
    · exact ((makes_node (k := 2) yields_report rfl (least_le_two _)).solid rfl).mono
        (Nat.zero_le 1)
    · split
      · exact ((makes_node (k := 2) yields_report rfl (least_le_two _)).solid rfl).mono
          (Nat.zero_le 1)
      · split
        · rename_i hasync
          simp only [View.nextWord, Bool.and_eq_true, beq_iff_eq] at hasync
          have hname : r.Yields (eat .ident) (s.enter .method []) 2 :=
            yields_eat_next rfl hasync.1.1.1
          have hbody := ((hname.follow hle ready.deep_propertyKey).follow hle
            ready.deep_parameterList).follow hle ready.deep_block
          exact ((makes_node hbody rfl (by decide)).solid rfl).mono (Nat.zero_le 1)
        · split
          · rename_i hname
            simp only [View.next, Bool.and_eq_true, beq_iff_eq] at hname
            have hvalue : r.Yields (.node .nameRef (eat .ident)) (s.enter .property []) 1 :=
              (makes_node (s := s.enter .property []) (yields_eat_next rfl hname.1) rfl
                (least_le_two _)).solid rfl
            exact ((makes_node hvalue rfl (Nat.le_refl 1)).solid rfl).mono (Nat.zero_le 1)
          · exact ((ready.makes_keyed hle).yields fun kind => by cases kind <;> decide).mono
              (Nat.zero_le 1)

end Ready

/-! ## Expressions -/

namespace Ready

open Reader Category

variable {r : Reader} {n : Nat}

theorem makes_newExpression (ready : Ready r n (rank .newExpression)) (hs : s.ahead.length ≤ n)
    (hnext : s.view.kind = .newKw) :
    r.Makes NodeKind.isExpression Grammar.newExpression s s.done := by
  refine (makes_node_next (k := 1) rfl rfl hnext hs fun u hu => ?_).of_kind rfl
  have hcallee : r.Makes NodeKind.isExpression
      (look fun v => if v.next .newKw then call .newExpression else call .primary) u u.done := by
    refine makes_look ?_
    split
    · rename_i hnew
      exact ready.deep .newExpression u hu fun _ => beq_iff_eq.mp hnew
    · exact ready.deep .primary u hu nofun
  refine yields_andThen_made (ready.makes_links
    (Nat.le_of_lt hu) hcallee ?_) solid_of_isExpression ?_
  · intro v hgo
    simp only [View.nextIn, List.contains_iff_mem, List.mem_cons, List.not_mem_nil, or_false,
      Bool.and_eq_true] at hgo
    rcases hgo.2 with h | h <;> simp [View.nextIn, linkKinds, h]
  · intro v hv
    refine yields_whenNext fun _ => ?_
    have hlength : v.ahead.length ≤ n := Nat.le_trans hv.length_le (Nat.le_of_lt hu)
    exact ((ready.makes_argumentList hlength).solid rfl).mono (Nat.zero_le 1)

theorem makes_primary (ready : Ready r n (rank .primary)) (hs : s.ahead.length ≤ n) :
    r.Makes NodeKind.isExpression Grammar.primary s s.done := by
  have hliteral (hsolid : s.view.kind.isSolid = true) :
      r.Makes NodeKind.isExpression (.node .literal (eat s.view.kind)) s s.done :=
    (makes_node (yields_eat_next hsolid rfl) rfl (least_le_two _)).of_kind rfl
  have hvalue := ((ready.deep_call .expression nofun).mono (Nat.zero_le 1)).succeed
  have helement := ready.deep_element.mono (Nat.zero_le 1)
  refine makes_look ?_
  split
  iterate 6 exact hliteral (‹s.view.kind = _› ▸ rfl)
  · rename_i h
    split
    · exact (ready.makes_functionExpr hs).of_kind rfl
    · exact (makes_node (yields_eat_next rfl h) rfl (least_le_two _)).of_kind rfl
  · rename_i h
    exact (makes_node (yields_eat_next rfl h) rfl (least_le_two _)).of_kind rfl
  · exact (hvalue.withNoIn.enclosed rfl hs).of_kind rfl
  · exact (helement.separatedWithHoles.withNoIn.enclosed rfl hs).of_kind rfl
  · exact (ready.deep_property.separated.withNoIn.enclosed rfl hs).of_kind rfl
  · exact (ready.makes_template hs).of_kind rfl
  · rename_i h
    exact ready.low .newExpression s (by decide) hs fun _ => h
  · exact (ready.makes_functionExpr hs).of_kind rfl
  iterate 3 exact makes_report

theorem makes_unary (ready : Ready r n (rank .unary)) (hs : s.ahead.length ≤ n) :
    r.Makes NodeKind.isExpression Grammar.unary s s.done := by
  refine makes_look ?_
  split
  · rename_i hawait
    exact (makes_node_next rfl rfl (beq_iff_eq.mp hawait) hs
      (ready.deep_call .unary nofun)).of_kind rfl
  · split
    · rename_i hleads
      have hsolid : s.view.kind.isSolid = true := by
        revert hleads
        cases s.view.kind <;> decide
      exact (makes_node_next rfl hsolid rfl hs (ready.deep_call .unary nofun)).of_kind rfl
    · have hlinks : r.Makes NodeKind.isExpression
          (andThen (call .primary) (many
            (fun v => !v.failed && v.nextIn linkKinds) link)) s s.done :=
        ready.makes_links hs (ready.low .primary s (by decide) hs nofun) fun v hgo =>
          (Bool.and_eq_true_iff.mp hgo).2
      refine makes_andThen hlinks solid_of_isExpression ?_
      intro u kind children hu hkind hshape hdone
      refine makes_look ?_
      split
      · rename_i hstep
        have hsolid : u.view.kind.isSolid = true := by
          replace hstep := (Bool.and_eq_true_iff.mp hstep).1
          unfold View.nextIn at hstep
          revert hstep
          cases u.view.kind <;> decide
        exact (makes_wrap hshape hdone (solid_of_isExpression kind hkind)
          (yields_eat_next (s := u.enter .postfixExpr _) hsolid rfl) rfl (by decide)).of_kind rfl
      · exact makes_skip hkind hshape hdone

theorem makes_binary (floor : Nat) (ready : Ready r n (rank (.binary floor)))
    (hs : s.ahead.length ≤ n) : r.Makes NodeKind.isExpression (Grammar.binary floor) s s.done := by
  refine makes_andThen (ready.low .unary s (Nat.lt_succ_self 3) hs nofun) solid_of_admits ?_
  intro u kind children hu hkind hshape hdone
  refine makes_many hkind hshape hdone ?_
  intro v kind children hv hkind hshape hdone hgo
  refine makes_look ?_
  split
  · rename_i power hpower
    have hsolid : v.view.kind.isSolid = true := by
      unfold View.power? at hpower
      split at hpower
      · cases hpower
      · revert hpower
        cases v.view.kind <;> first | (intro; rfl) | nofun
    exact (makes_wrap_next hshape hdone (solid_of_isExpression kind hkind) rfl hsolid rfl
      (Nat.le_trans hv (Nat.le_trans (Nat.le_of_lt hu) hs))
      (ready.deep_call (.binary power.right) nofun)).of_kind rfl
  · rename_i hpower
    simp [View.joins, hpower] at hgo

theorem makes_assignment (ready : Ready r n (rank .assignment)) (hs : s.ahead.length ≤ n) :
    r.Makes NodeKind.isExpression Grammar.assignment s s.done := by
  refine makes_look ?_
  split
  · exact (ready.makes_arrow hs).of_kind rfl
  · split
    · exact makes_report
    · refine makes_andThen (ready.low (.binary 0) s (by decide) hs nofun) solid_of_admits ?_
      intro u kind children hu hkind hshape hdone
      have hsolid := solid_of_isExpression kind hkind
      have hle : u.ahead.length ≤ n := Nat.le_trans (Nat.le_of_lt hu) hs
      have hvalue := ready.deep_call .assignment nofun
      refine makes_look ?_
      split
      · rename_i hquestion
        have hfirst : r.Yields (eat .question) (u.enter .condExpr [.node kind children]) 2 :=
          yields_eat_next rfl (beq_iff_eq.mp hquestion)
        have hmiddle : r.Deep n (withNoIn false (call .assignment)) 1 := hvalue.withNoIn
        have hbody := ((hfirst.follow hle hmiddle).follow hle
            (deep_expect .colon rfl)).follow hle hvalue
        exact (makes_wrap hshape hdone hsolid hbody rfl (by decide)).of_kind rfl
      · split
        · rename_i hassigns
          have htoken : u.view.kind.isSolid = true := by
            revert hassigns
            cases u.view.kind <;> decide
          exact (makes_wrap_next hshape hdone hsolid rfl htoken rfl hle hvalue).of_kind rfl
        · exact makes_skip hkind hshape hdone

theorem makes_expression (ready : Ready r n (rank .expression)) (hs : s.ahead.length ≤ n) :
    r.Makes NodeKind.isExpression Grammar.expression s s.done := by
  refine makes_andThen (ready.low .assignment s (by decide) hs nofun) solid_of_admits ?_
  intro u kind children hu hkind hshape hdone
  refine makes_look ?_
  split
  · rename_i hcomma
    have hlength : u.ahead.length < n := Nat.lt_of_lt_of_le hu hs
    have hround : r.Deep n (eat .comma ++ call .assignment) 1 :=
      (deep_eat rfl).seq (ready.deep_call .assignment nofun)
    have htoken : r.Yields (eat .comma) (u.enter .sequenceExpr [.node kind children]) 2 :=
      yields_eat_next rfl (beq_iff_eq.mp hcomma)
    have hfirst := htoken.follow (Nat.le_of_lt hlength) (ready.deep_call .assignment nofun)
    have hparts : r.Yields (many (·.next .comma) (eat .comma ++ call .assignment))
        (u.enter .sequenceExpr [.node kind children]) 3 :=
      yields_many_first hcomma hfirst fun v hv =>
        (hround v (Nat.lt_of_le_of_lt hv hlength)).mono (Nat.zero_le 1)
    exact (makes_wrap hshape hdone (solid_of_isExpression kind hkind) hparts rfl
      (by decide)).of_kind
      rfl
  · exact makes_skip hkind hshape hdone

end Ready

end ShellAwait.Grammar
