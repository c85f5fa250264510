import ShellAwait.Proofs.Grammar.Drafts
import ShellAwait.Proofs.Grammar.Fronts
import ShellAwait.Proofs.Grammar.Rules

/-! # Expressions that are read are in the grammar

Every rule, run without a problem, finds phrases of its part of the grammar. The parts that a rule
refers to by name are taken for granted up to the number of tokens that are ahead, as far as their
rank is smaller or a token has been taken.
-/

namespace ShellAwait.Grammar

open Phrase Rule Category

variable {n : Bool} {l : List Phrase} {rest ahead : List Lookahead} {item : Item} {d : Draft}
  {outcome : Outcome}

namespace Reader

/-- With at most `m` tokens ahead a rule finds phrases of a part. -/
def GivesIn (r : Reader) (m : Nat) (n : Bool) (rule : Rule) (part : Part) (inner : Bool) : Prop :=
  ∀ d ahead outcome, ahead.length ≤ m →
    (∀ l rest, ahead = words l ++ rest → Reads part inner l rest → outcome true (d.add l) rest) →
    r.Finds rule n d ahead outcome

def Gives (r : Reader) (m : Nat) (rule : Rule) (part : Part) : Prop :=
  ∀ n, r.GivesIn m n rule part n

/-- The same where a token of the given kind is next. -/
def GivesAt (r : Reader) (m : Nat) (kind : TokenKind) (rule : Rule) (part : Part) : Prop :=
  ∀ n d ahead outcome, ahead.length ≤ m → (front ahead).kind = kind →
    (∀ p rest, ahead = words [p] ++ rest → Reads part n [p] rest → outcome true (d.add [p]) rest) →
    r.Finds rule n d ahead outcome

end Reader

/-- What is known about the named parts for a rule that is run with at most `m` tokens ahead. -/
structure Knows (r : Reader) (m rank : Nat) : Prop where
  limit : m < r.limit
  /-- Parts of smaller rank may be referred to anywhere. -/
  low : ∀ category : Category, category ≠ .newExpression → category.rank < rank →
    r.Gives m (call category) (.category category)
  /-- Every part may be referred to behind the first token. -/
  deep : ∀ category : Category, category ≠ .newExpression → ∀ k < m,
    r.Gives k (call category) (.category category)
  lowNew : Category.newExpression.rank < rank →
    r.GivesAt m .newKw (call .newExpression) (.category .newExpression)
  deepNew : ∀ k < m, r.GivesAt k .newKw (call .newExpression) (.category .newExpression)

theorem Reads.single_category {category : Category} (h : Reads (.category category) n l rest) :
    ∃ p, l = [p] := by
  cases h <;> exact ⟨_, rfl⟩

theorem Reads.single_group {what : Enclosure} (h : Reads (.group what) n l rest) :
    ∃ p, l = [p] := by
  cases h
  exact ⟨_, rfl⟩

theorem Reads.single_item (h : Reads (.item item) n l rest) : ∃ p, l = [p] := by
  cases h <;> exact ⟨_, rfl⟩

theorem Reads.single_key (h : Reads .key n l rest) : ∃ p, l = [p] := by
  cases h <;> exact ⟨_, rfl⟩

theorem Reads.single_withDefault (h : Reads .withDefault n l rest) : ∃ p, l = [p] := by
  cases h <;> exact ⟨_, rfl⟩

namespace Reader

variable {r : Reader} {k : Nat}

/-! ## Enclosures and lists -/

theorem gives_enclosed (what : Enclosure) {body : Rule} (hwhat : what ≠ .loopHead)
    (hbody : ∀ j < k, ∀ n, r.GivesIn j n body what.inner (what.noIn n)) :
    r.Gives k (bracket what body) (.enclosed what) := by
  intro n d ahead outcome hlen h
  refine finds_bracket ?_
  rintro o rest rfl ho
  refine hbody rest.length hlen n _ rest _ (Nat.le_refl _) ?_
  rintro l more rfl hread
  refine ⟨rfl, ?_⟩
  rintro c after rfl hc
  simpa using h (.leaf o :: (l ++ [.leaf c])) after (by simp) (.enclosed hwhat ho hc hread)

theorem gives_group (what : Enclosure) {kind : NodeKind} {body : Rule} (hkind : what.kind? = some kind)
    (hbody : ∀ j < k, ∀ n, r.GivesIn j n body what.inner (what.noIn n)) :
    r.Gives k (node kind (bracket what body)) (.group what) := by
  intro n d ahead outcome hlen h
  have hwhat : what ≠ .loopHead := by
    rintro rfl
    cases hkind
  refine finds_node (gives_enclosed what hwhat hbody n _ ahead _ hlen fun l rest hahead hread => ?_)
  exact h [.node kind l] rest (by simpa using hahead) (.group hkind hread)

theorem GivesIn.succeed {inner : Bool} {rule : Rule} {part : Part}
    (h : r.GivesIn k n rule part inner) : r.GivesIn k n (succeed rule) part inner :=
  fun d ahead _ hlen hout =>
  finds_succeed (h d ahead _ hlen hout)

theorem Gives.succeed {rule : Rule} {part : Part} (h : r.Gives k rule part) :
    r.Gives k (succeed rule) part := fun n => GivesIn.succeed (h n)

theorem Gives.free {rule : Rule} {part : Part} (h : r.Gives k rule part) (n : Bool) :
    r.GivesIn k n (withNoIn false rule) part false := fun d ahead _ hlen hout =>
  finds_withNoIn (h false d ahead _ hlen hout)

theorem finds_optional {kind : TokenKind}
    (h : ∀ b l rest, ahead = words l ++ rest → Optional kind l → (l = [] → kind = .eof ∨ (front
      rest).kind ≠ kind) → outcome b (d.add l) rest) : r.Finds (eat kind) n d ahead outcome := by
  refine finds_eat (fun t rest hahead ht => ?_) fun hother => ?_
  · exact h true [.leaf t] rest hahead (.inr ⟨t, ht, rfl⟩) nofun
  · rw [← d.add_nil]
    refine h false [] ahead rfl (.inl rfl) fun _ => ?_
    cases ahead with
    | nil =>
        by_cases heof : kind = .eof
        · exact .inl heof
        · exact .inr fun hkind => heof hkind.symm
    | cons t rest => exact .inr (hother t rest rfl)

theorem finds_separator {closer : TokenKind} {holes : Bool} {e : Draft} {p : Phrase}
    (hitem : Reads (.item item) n [p] rest) :
    r.Finds (separator closer) n (e.add [p]) rest fun b f more => ∃ l, f = e.add l ∧
      words [p] ++ rest = words l ++ more ∧
        (b = true ∧ more.length < (words [p] ++ rest).length ∧ (∀ m after, more = words m ++ after →
            Reads (.items item holes) n m after → Reads (.items item holes) n (l ++ m) after) ∨
          (b = true → more.length < (words [p] ++ rest).length ∧
            (viewOf n more).within closer = false) ∧ Reads (.items item holes) n l more) := by
  have hpos := hitem.length_pos rfl
  refine finds_look ?_
  rw [next_viewOf]
  split
  · rename_i hnext
    refine finds_skip ⟨[p], rfl, rfl, .inr ⟨fun _ => ⟨by simp at hpos ⊢; omega, ?_⟩, .lastItem hitem⟩⟩
    simp [View.within, hnext]
  · refine finds_expect nofun ?_
    rintro t more rfl ht
    refine ⟨[p, .leaf t], by simp, by simp, .inl ⟨rfl, by simp; omega, ?_⟩⟩
    rintro l after rfl hl
    exact .nextItem hitem ht hl

theorem gives_separated {closer : TokenKind} {element : Rule} (hlimit : k < r.limit)
    (helement : r.Gives k element (.item item)) :
    r.Gives k (separated closer element) (.items item false) := by
  intro n d ahead outcome hlen h
  refine finds_list (Reads (.items item false) n) (by omega) (fun e rest hgo hle => ?_)
    (fun _ _ => .noItem) h
  refine finds_seq (helement n e rest _ (by omega) ?_)
  rintro l more rfl hitem
  obtain ⟨p, rfl⟩ := hitem.single_item
  exact finds_separator hitem

theorem gives_separatedWithHoles {closer : TokenKind} {element : Rule} (hlimit : k < r.limit)
    (helement : r.Gives k element (.item item)) :
    r.Gives k (separatedWithHoles closer element) (.items item true) := by
  intro n d ahead outcome hlen h
  refine finds_list (Reads (.items item true) n) (by omega) (fun e rest hgo hle => finds_look ?_)
    (fun _ _ => .noItem) h
  rw [next_viewOf]
  split
  · rename_i hnext
    refine finds_next (beq_iff_eq.mp hnext) nofun ?_
    rintro t more rfl ht
    exact ⟨[.leaf t], rfl, rfl, .inl ⟨rfl, by simp, fun _ _ _ hm => .hole ht hm⟩⟩
  · refine finds_seq (helement n e rest _ (by omega) ?_)
    rintro l more rfl hitem
    obtain ⟨p, rfl⟩ := hitem.single_item
    exact finds_separator hitem

theorem finds_statements {goOn : View → Bool} (hlimit : k < r.limit)
    (hstatement : r.Gives k (call .statement) .statement) (hlen : ahead.length ≤ k)
    (h : ∀ l rest, ahead = words l ++ rest → Reads .statements n l rest → goOn (viewOf n rest) =
      false → outcome true (d.add l) rest) :
    r.Finds (many goOn (call .statement)) n d ahead outcome := by
  refine finds_list (fun l rest => Reads .statements n l rest ∧ goOn (viewOf n rest) = false)
    (by omega) (fun e rest _ hle => ?_) (fun _ hstop => ⟨.noStatement, hstop⟩)
    fun l rest hahead hl => h l rest hahead hl.1 hl.2
  refine hstatement n e rest _ (by omega) ?_
  rintro l more rfl hread
  obtain ⟨p, rfl⟩ := hread.single_category
  have hpos := hread.length_pos rfl
  refine ⟨[p], rfl, rfl, .inl ⟨rfl, by simp at hpos ⊢; omega, ?_⟩⟩
  rintro l after rfl ⟨hl, hstop⟩
  exact ⟨.statement hread hl, hstop⟩

theorem gives_statements {goOn : View → Bool} (hlimit : k < r.limit)
    (hstatement : r.Gives k (call .statement) .statement) :
    r.Gives k (many goOn (call .statement)) .statements := fun _ _ _ _ hlen h =>
  finds_statements hlimit hstatement hlen fun l rest hahead hl _ => h l rest hahead hl

end Reader

namespace Knows

open Reader

variable {r : Reader} {m rank : Nat}

section

variable (knows : Knows r m rank) {k : Nat} (hk : k < m)

include knows hk

/-! ## Patterns -/

theorem gives_patternWithDefault : r.Gives k patternWithDefault .withDefault := by
  intro n d ahead outcome hlen h
  refine finds_andThen (knows.deep .pattern nofun k hk n d ahead _ hlen ?_)
  rintro l rest rfl hpattern
  obtain ⟨p, rfl⟩ := hpattern.single_category
  refine ⟨rfl, finds_whenNext (fun hnext => ?_) fun hother =>
    h [p] rest rfl (.noDefault hpattern hother)⟩
  refine finds_wrap (finds_seq (finds_next hnext nofun ?_))
  rintro t rest rfl ht
  refine knows.deep .assignment nofun k hk n _ rest _ (by simp at hlen; omega) ?_
  rintro l rest rfl hvalue
  obtain ⟨v, rfl⟩ := hvalue.single_category
  exact h [.node .assignPat [p, .leaf t, v]] rest (by simp) (.default hpattern ht hvalue)

theorem gives_propertyKey : r.Gives k propertyKey .key := by
  intro n d ahead outcome hlen h
  refine finds_look ?_
  split
  · have hassignment : ∀ j < k, ∀ n, r.GivesIn j n (succeed (call .assignment))
        Enclosure.computedKey.inner (Enclosure.computedKey.noIn n) := fun j hj n =>
      (knows.deep .assignment nofun j (by omega) n).succeed
    refine gives_group .computedKey rfl hassignment n d ahead _ hlen fun l rest hahead hread => ?_
    obtain ⟨p, rfl⟩ := hread.single_group
    exact h [p] rest hahead (.computedKey hread)
  · split
    · rename_i hother hkey
      have hplain : isPlainKey (front ahead).kind = true := by
        simp [View.startsKey, isPlainKey] at hkey hother ⊢
        grind
      refine finds_node (finds_next (kind_viewOf n ahead).symm ?_ ?_)
      · intro heof
        rw [kind_viewOf] at heof
        rw [heof] at hplain
        revert hplain
        decide
      · rintro t rest rfl ht
        exact h [.node .propName [.leaf t]] rest rfl (.plainKey hplain)
    · exact finds_report

theorem gives_rest (hitem : item = .patternElement ∨ item = .patternEntry) (hlen : ahead.length ≤ k)
    (hnext : (front ahead).kind = .dotDotDot)
    (h : ∀ l rest, ahead = words l ++ rest → Reads (.item item) n l rest → outcome true (d.add l)
      rest) : r.Finds restPattern n d ahead outcome := by
  refine finds_node (finds_seq (finds_next hnext nofun ?_))
  rintro t rest rfl ht
  refine knows.deep .pattern nofun k hk n _ rest _ (by simp at hlen; omega) ?_
  rintro l rest rfl hpattern
  obtain ⟨p, rfl⟩ := hpattern.single_category
  exact h [.node .restPat [.leaf t, p]] rest (by simp) (.restElement hitem ht hpattern)

theorem gives_patternElement :
    r.Gives k (look fun v => if v.next .dotDotDot then restPattern else patternWithDefault)
      (.item .patternElement) := by
  intro n d ahead outcome hlen h
  refine finds_look ?_
  rw [next_viewOf]
  split
  · rename_i hnext
    exact knows.gives_rest hk (.inl rfl) hlen (beq_iff_eq.mp hnext) h
  · refine knows.gives_patternWithDefault hk n d ahead _ hlen fun l rest hahead hread => ?_
    obtain ⟨p, rfl⟩ := hread.single_withDefault
    exact h [p] rest hahead (.patternElement hread)

theorem gives_patternEntry :
    r.Gives k (look fun v => if v.next .dotDotDot then restPattern else patternProperty)
      (.item .patternEntry) := by
  intro n d ahead outcome hlen h
  refine finds_look ?_
  rw [next_viewOf]
  split
  · rename_i hnext
    exact knows.gives_rest hk (.inr rfl) hlen (beq_iff_eq.mp hnext) h
  · refine finds_node (finds_look ?_)
    split
    · rename_i hname
      simp only [Bool.and_eq_true, bne_iff_ne] at hname
      refine knows.gives_patternWithDefault hk n _ ahead _ hlen ?_
      rintro l rest rfl hread
      obtain ⟨p, rfl⟩ := hread.single_withDefault
      exact h [.node .patProp [p]] rest (by simp) (.patternName hread (beq_iff_eq.mp hname.1) hname.2)
    · refine finds_seq (finds_seq (knows.gives_propertyKey hk n _ ahead _ hlen ?_))
      rintro l rest rfl hkey
      obtain ⟨q, rfl⟩ := hkey.single_key
      refine finds_expect nofun ?_
      rintro t rest rfl ht
      refine knows.gives_patternWithDefault hk n _ rest _ (by simp at hlen; omega) ?_
      rintro l rest rfl hread
      obtain ⟨p, rfl⟩ := hread.single_withDefault
      exact h [.node .patProp [q, .leaf t, p]] rest (by simp) (.patternKey hkey ht hread)

/-! ## Blocks and functions -/

theorem gives_initializer : r.Gives k initializer .initializer := by
  intro n d ahead outcome hlen h
  refine finds_whenNext (fun hnext => finds_seq (finds_next hnext nofun ?_)) fun hother => ?_
  · rintro t rest rfl ht
    refine knows.deep .assignment nofun k hk n _ rest _ (by simp at hlen; omega) ?_
    rintro l rest rfl hvalue
    obtain ⟨v, rfl⟩ := hvalue.single_category
    simpa using h [.leaf t, v] rest (by simp) (.initializer ht hvalue)
  · simpa using h [] ahead rfl (.noInitializer hother)

theorem gives_parameter : r.Gives k parameter (.item .parameter) := by
  intro n d ahead outcome hlen h
  refine finds_node (finds_seq (finds_seq (finds_optional ?_)))
  rintro _ dots rest rfl hdots -
  refine knows.deep .pattern nofun k hk n _ rest _ (by simp at hlen; omega) ?_
  rintro l rest rfl hpattern
  obtain ⟨p, rfl⟩ := hpattern.single_category
  refine knows.gives_initializer hk n _ rest _ (by simp at hlen; omega) ?_
  rintro i rest rfl hvalue
  simpa using h [.node .param (dots ++ p :: i)] rest (by simp) (.parameter hdots hpattern hvalue)

end

section

variable (knows : Knows r m rank) {k : Nat} (hk : k ≤ m)

include knows hk

theorem gives_block : r.Gives k block (.group .block) := by
  intro n d ahead outcome hlen h
  have hlimit := knows.limit
  refine finds_node (finds_look ?_)
  split
  · refine gives_enclosed .block nofun (fun j hj =>
      gives_statements (by omega) (knows.deep .statement nofun j (by omega))) n _ ahead _ hlen
      fun l rest hahead hread => ?_
    exact h [.node .block l] rest (by simpa using hahead) (.group rfl hread)
  · exact finds_seq finds_report

theorem gives_parameterList : r.Gives k parameterList (.group .parameterList) := by
  refine gives_group .parameterList rfl fun j hj n => ?_
  have hlimit := knows.limit
  exact gives_separated (by omega) (knows.gives_parameter (by omega)) n

theorem gives_pattern : r.Gives k pattern .pattern := by
  intro n d ahead outcome hlen h
  have hlimit := knows.limit
  refine finds_look ?_
  rw [kind_viewOf]
  split
  · rename_i hnext
    refine finds_node (finds_next hnext nofun ?_)
    rintro t rest rfl ht
    exact h [.node .identPat [.leaf t]] rest rfl (.name ht)
  · refine gives_group .arrayPattern rfl (fun j hj => gives_separatedWithHoles (by omega)
      (knows.gives_patternElement (by omega))) n d ahead _ hlen fun l rest hahead hread => ?_
    obtain ⟨p, rfl⟩ := hread.single_group
    exact h [p] rest hahead (.patternGroup rfl hread)
  · refine gives_group .objectPattern rfl (fun j hj => gives_separated (by omega)
      (knows.gives_patternEntry (by omega))) n d ahead _ hlen fun l rest hahead hread => ?_
    obtain ⟨p, rfl⟩ := hread.single_group
    exact h [p] rest hahead (.patternGroup rfl hread)
  · exact finds_report

theorem finds_functionRest (hlen : ahead.length ≤ k)
    (h : ∀ ps b rest, ahead = words [ps, b] ++ rest → Reads (.group .parameterList) n [ps] (words
      [b] ++ rest) → Reads (.group .block) n [b] rest → outcome true (d.add [ps, b]) rest) :
    r.Finds (parameterList ++ unlessFailed block) n d ahead outcome := by
  refine finds_seq (knows.gives_parameterList hk n d ahead _ hlen ?_)
  rintro l rest rfl hparameters
  obtain ⟨ps, rfl⟩ := hparameters.single_group
  refine finds_unlessFailed (knows.gives_block hk n _ rest _ (by simp at hlen; omega) ?_)
  rintro l rest rfl hblock
  obtain ⟨b, rfl⟩ := hblock.single_group
  simpa using h ps b rest (by simp) hparameters hblock

theorem finds_functionTail {needsName : Bool} (hlen : ahead.length ≤ k)
    (hstart : (front ahead).kind = .functionKw ∨ (viewOf n ahead).startsAsyncFunction = true)
    (h : ∀ l rest, ahead = words l ++ rest → Reads (.function needsName) n l rest → outcome true
      (d.add l) rest) : r.Finds (functionTail needsName) n d ahead outcome := by
  -- Behind the modifier both cases go on alike.
  have hrest : ∀ (a : List Phrase) (rest : List Lookahead), ahead = words a ++ rest → Modifier a →
      (a ≠ [] → (front rest).breakBefore = false) →
      r.Finds (expect .functionKw) n (d.add a) rest fun _ e rest =>
        r.Finds (look fun v =>
          if v.next .star then report (.unsupported .generators)
          else if v.next .ident then eat .ident ++ (parameterList ++ unlessFailed block)
          else if needsName then report .missingFunctionName
          else parameterList ++ unlessFailed block) n e rest outcome := by
    rintro a rest rfl hasync hbreak
    refine finds_expect (by decide) ?_
    rintro f rest rfl hf
    have hbreak : a ≠ [] → f.breakBefore = false := hbreak
    refine finds_look ?_
    rw [next_viewOf, next_viewOf]
    split
    · exact finds_report
    · split
      · rename_i hnext
        refine finds_seq (finds_next (beq_iff_eq.mp hnext) (by decide) ?_)
        rintro t rest rfl ht
        refine knows.finds_functionRest hk (by simp at hlen; omega) ?_
        rintro ps b rest rfl hparameters hblock
        have hfunction : Reads (.function needsName) n (a ++ .leaf f :: ([.leaf t] ++ [ps, b])) rest :=
          .function hasync hbreak hf (.inr ⟨t, ht, rfl⟩) (fun _ => List.cons_ne_nil _ _) hparameters hblock
        simpa using h _ rest (by simp) hfunction
      · split
        · exact finds_report
        · rename_i hname
          refine knows.finds_functionRest hk (by simp at hlen; omega) ?_
          rintro ps b rest rfl hparameters hblock
          have hfunction : Reads (.function needsName) n (a ++ .leaf f :: ([] ++ [ps, b])) rest :=
            .function hasync hbreak hf (.inl rfl) (fun hneeds => absurd hneeds hname) hparameters hblock
          simpa using h _ rest (by simp) hfunction
  refine finds_seq (finds_seq (finds_look ?_))
  split
  · rename_i hword
    have hident : (front ahead).kind = .ident := by simp [View.nextWord] at hword; exact hword.1
    refine finds_next hident (by decide) ?_
    rintro t rest rfl ht
    refine hrest [.leaf t] rest rfl (.inr ⟨t, ?_, rfl⟩) fun _ => ?_
    · exact hword
    · rcases hstart with hstart | hstart
      · exact absurd (hident.symm.trans hstart) (by decide)
      · simp at hstart
        exact hstart.2
  · refine finds_skip ?_
    rw [← d.add_nil]
    exact hrest [] ahead rfl (.inl rfl) (fun h => absurd rfl h)

theorem finds_arrow (hlen : ahead.length ≤ k) (hstart : (viewOf n ahead).startsArrow = true)
    (h : ∀ p rest, ahead = words [p] ++ rest → Reads .assignment n [p] rest → outcome true (d.add
      [p]) rest) : r.Finds arrow n d ahead outcome := by
  -- Behind the parameters.
  have hend : ∀ (a : List Phrase) (ps : Phrase) (rest : List Lookahead),
      ahead = words a ++ (words [ps] ++ rest) → Modifier a →
      (a ≠ [] → (front (words [ps] ++ rest)).breakBefore = false) →
      Reads .arrowParameters n [ps] rest →
      r.Finds (expect .fatArrow) n ⟨.arrow, a ++ [ps]⟩ rest fun _ e rest =>
        r.Finds (look fun v => if v.next .lBrace then block else call .assignment) n e rest
          fun _ e rest => outcome true (d.add [.node e.kind e.parts]) rest := by
    rintro a ps rest rfl hasync hbreak hparameters
    refine finds_expect nofun ?_
    rintro t rest rfl ht
    have hdone (b : Phrase) (more : List Lookahead) (hrest : rest = words [b] ++ more)
        (hbody : Reads .arrowBody n [b] more) :
        outcome true (d.add [.node .arrow (a ++ [ps, .leaf t, b])]) more := by
      subst hrest
      refine h _ more (by simp) (.arrow hasync (fun ha => ?_) hparameters ht hbody)
      rw [← hbreak ha]
      cases words [ps] <;> rfl
    refine finds_look ?_
    rw [next_viewOf]
    split
    · refine knows.gives_block hk n _ rest _ (by simp at hlen; omega) fun l more hrest hread => ?_
      obtain ⟨b, rfl⟩ := hread.single_group
      simpa using hdone b more hrest (.arrowBlock hread)
    · rename_i hother
      refine knows.deep .assignment nofun rest.length (by simp at hlen; omega) n _ rest _ (Nat.le_refl _)
        fun l more hrest hread => ?_
      obtain ⟨b, rfl⟩ := hread.single_category
      have hbody : Reads .arrowBody n [b] more := by
        refine .arrowValue hread ?_
        rw [← hrest]
        simpa using hother
      simpa using hdone b more hrest hbody
  -- Behind the modifier.
  have hmiddle : ∀ (a : List Phrase) (rest : List Lookahead), ahead = words a ++ rest → Modifier a →
      (a ≠ [] → (front rest).breakBefore = false) →
      r.Finds (look fun v =>
        if v.next .ident then .node .paramList (.node .param (.node .identPat (eat .ident)))
        else parameterList) n ⟨.arrow, a⟩ rest fun _ e rest =>
          r.Finds (expect .fatArrow) n e rest fun _ e rest =>
            r.Finds (look fun v => if v.next .lBrace then block else call .assignment) n e rest
              fun _ e rest => outcome true (d.add [.node e.kind e.parts]) rest := by
    rintro a rest rfl hasync hbreak
    refine finds_look ?_
    rw [next_viewOf]
    split
    · rename_i hnext
      refine finds_node (finds_node (finds_node (finds_next (beq_iff_eq.mp hnext) nofun ?_)))
      rintro t rest rfl ht
      exact hend a _ rest (by simp) hasync hbreak (.arrowName ht)
    · refine knows.gives_parameterList hk n _ rest _ (by simp at hlen; omega) ?_
      rintro l rest rfl hread
      obtain ⟨ps, rfl⟩ := hread.single_group
      exact hend a ps rest rfl hasync hbreak (.arrowList hread)
  refine finds_node (finds_seq (finds_seq (finds_seq (finds_look ?_))))
  split
  · rename_i hword
    simp only [Bool.and_eq_true, bne_iff_ne] at hword
    have hident : (front ahead).kind = .ident := by
      have hkind := (Bool.and_eq_true _ _ ▸ hword.1 : _ ∧ _).1
      simpa using hkind
    refine finds_next hident nofun ?_
    rintro t rest rfl ht
    refine hmiddle [.leaf t] rest rfl (.inr ⟨t, hword.1, rfl⟩) fun _ => ?_
    rw [kindAt_one] at hword
    rw [startsArrow_ident ht] at hstart
    simp only [Bool.or_eq_true, beq_iff_eq, hword.2, false_or, Bool.and_eq_true, Bool.not_eq_true']
      at hstart
    exact hstart.1.2
  · exact finds_skip (hmiddle [] ahead rfl (.inl rfl) fun hne => absurd rfl hne)

end

/-! ## Links -/

theorem finds_memberName
    (h : ∀ t rest, ahead = t :: rest → isMemberName t.kind = true → outcome true (d.add [.node
      .memberName [.leaf t]]) rest) : r.Finds memberName n d ahead outcome := by
  refine finds_node (finds_look ?_)
  rw [next_viewOf, kind_viewOf]
  split
  · rename_i hname
    refine finds_next rfl ?_ ?_
    · intro heof
      rw [heof] at hname
      revert hname
      decide
    · rintro t rest rfl -
      exact h t rest rfl hname
  · exact finds_report

section

variable (knows : Knows r m rank) {k : Nat} (hk : k < m)

include knows hk

theorem finds_spread (hitem : item = .element ∨ item = .property) (hlen : ahead.length ≤ k)
    (hnext : (front ahead).kind = .dotDotDot)
    (h : ∀ l rest, ahead = words l ++ rest → Reads (.item item) n l rest → outcome true (d.add l)
      rest) : r.Finds spread n d ahead outcome := by
  refine finds_node (finds_seq (finds_next hnext nofun ?_))
  rintro t rest rfl ht
  refine knows.deep .assignment nofun k hk n _ rest _ (by simp at hlen; omega) ?_
  rintro l rest rfl hvalue
  obtain ⟨v, rfl⟩ := hvalue.single_category
  exact h [.node .spreadElement [.leaf t, v]] rest (by simp) (.spread hitem ht hvalue)

theorem gives_element : r.Gives k element (.item .element) := by
  intro n d ahead outcome hlen h
  refine finds_look ?_
  rw [next_viewOf]
  split
  · rename_i hnext
    exact knows.finds_spread hk (.inl rfl) hlen (beq_iff_eq.mp hnext) h
  · refine knows.deep .assignment nofun k hk n d ahead _ hlen fun l rest hahead hread => ?_
    obtain ⟨v, rfl⟩ := hread.single_category
    exact h [v] rest hahead (.value hread)

theorem gives_arguments :
    r.Gives k (many (·.within .rParen) (element ++ eat .comma)) (.items .element false) := by
  intro n d ahead outcome hlen h
  have hlimit := knows.limit
  refine finds_list (Reads (.items .element false) n) (by omega) (fun e rest _ hle => ?_)
    (fun _ _ => .noItem) h
  refine finds_seq (knows.gives_element hk n e rest _ (by omega) ?_)
  rintro l more rfl hitem
  obtain ⟨p, rfl⟩ := hitem.single_item
  refine finds_eat ?_ fun _ => ⟨[p], rfl, rfl, .inr ⟨nofun, .lastItem hitem⟩⟩
  rintro t more rfl ht
  refine ⟨[p, .leaf t], by simp, by simp, .inl ⟨rfl, by simp; omega, ?_⟩⟩
  rintro l after rfl hl
  exact .nextItem hitem ht hl

theorem finds_templatePart {e : Draft} (hlen : rest.length ≤ k)
    (hpart : (viewOf n rest).nextIn [.templateContent, .interpolationStart] = true) :
    r.Finds (look fun v => if v.next .templateContent then eat .templateContent
      else node .interpolation (bracket .interpolation (succeed (call .expression)))) n e rest
      fun _ f more => ∃ l, f = e.add l ∧ rest = words l ++ more ∧ more.length < rest.length ∧
        ∀ m after, more = words m ++ after → Reads .templateParts n m after →
          Reads .templateParts n (l ++ m) after := by
  refine finds_look ?_
  rw [next_viewOf]
  split
  · rename_i hnext
    refine finds_next (beq_iff_eq.mp hnext) nofun ?_
    rintro t more rfl ht
    exact ⟨[.leaf t], rfl, rfl, by simp, fun _ _ _ hm => .templateText ht hm⟩
  · refine gives_group .interpolation rfl (fun j hj n =>
      (knows.deep .expression nofun j (by omega) n).succeed) n e rest _ hlen ?_
    rintro l more rfl hread
    obtain ⟨p, rfl⟩ := hread.single_group
    have hpos := hread.length_pos rfl
    refine ⟨[p], rfl, rfl, by simp at hpos ⊢; omega, ?_⟩
    rintro l after rfl hl
    exact .interpolation hread hl

theorem gives_templateParts : r.Gives k templateParts .templateParts := by
  intro n d ahead outcome hlen h
  have hlimit := knows.limit
  refine finds_look ?_
  split
  · rename_i hpart
    refine finds_seq (finds_seq ((knows.finds_templatePart hk hlen hpart).mono ?_))
    rintro - f more ⟨l, rfl, rfl, -, hfirst⟩
    simp only [List.length_append] at hlen
    refine finds_list (Reads .templateParts n) (by omega) (fun e rest hgo hle => ?_)
      (fun _ _ => .noPart) ?_
    · refine finds_succeed ((knows.finds_templatePart hk (by omega) hgo).mono ?_)
      rintro - f more ⟨l, rfl, rfl, hless, hnext⟩
      exact ⟨l, rfl, rfl, .inl ⟨rfl, hless, hnext⟩⟩
    · rintro l' rest rfl hparts
      refine finds_look (finds_skip ?_)
      rw [Draft.add_add]
      exact h (l ++ l') rest (by simp) (hfirst l' rest rfl hparts)
  · refine finds_skip ?_
    rw [← d.add_nil]
    exact h [] ahead rfl .noPart

end

section

variable (knows : Knows r m rank) {k : Nat} (hk : k ≤ m)

include knows hk

theorem gives_indexTail : r.Gives k indexTail (.enclosed .index) :=
  gives_enclosed .index nofun fun j hj =>
    (knows.deep .expression nofun j (by omega)).succeed.free

theorem gives_argumentList : r.Gives k argumentList (.group .argumentList) :=
  gives_group .argumentList rfl fun _ hj => (knows.gives_arguments (by omega)).free

theorem gives_template : r.Gives k template (.group .template) :=
  gives_group .template rfl fun _ hj => knows.gives_templateParts (by omega)

theorem finds_link {calls : Bool} {outer : NodeKind} {ps : List Phrase} {p : Phrase}
    (hlen : ahead.length ≤ k) (hp : Reads (.chain calls) n [p] ahead)
    (hgo : (viewOf n ahead).nextIn (chainLinks calls) = true)
    (h : ∀ q rest, words [p] ++ ahead = words [q] ++ rest → rest.length < ahead.length → Reads
      (.chain calls) n [q] rest → outcome true ⟨outer, ps ++ [q]⟩ rest) :
    r.Finds link n ⟨outer, ps ++ [p]⟩ ahead outcome := by
  rw [nextIn_viewOf] at hgo
  -- The calls that only an operand may have.
  have hcall (hkind : [TokenKind.dot, .lBracket].contains (front ahead).kind = false) : calls = true := by
    cases calls with
    | true => rfl
    | false => exact absurd (hgo.symm.trans hkind) nofun
  have hargs (q : List Phrase) (rest : List Lookahead) (hahead : ahead = words q ++ rest)
      (hq : Optional .questionDot q) (hcalls : calls = true) :
      r.Finds argumentList n ⟨.callExpr, p :: q⟩ rest fun _ e more =>
        outcome true ⟨outer, ps ++ [.node e.kind e.parts]⟩ more := by
    subst hcalls hahead
    refine knows.gives_argumentList hk n _ rest _ (by simp at hlen; omega) ?_
    rintro l rest rfl hread
    obtain ⟨a, rfl⟩ := hread.single_group
    have hpos := hread.length_pos rfl
    exact h (.node .callExpr (p :: (q ++ [a]))) rest (by simp) (by simp at hpos ⊢; omega)
      (.call (by simpa using hp) hq hread)
  have hindex (q : List Phrase) (rest : List Lookahead) (hahead : ahead = words q ++ rest)
      (hq : Optional .questionDot q) (hcalls : q ≠ [] → calls = true) :
      r.Finds indexTail n ⟨.indexExpr, p :: q⟩ rest fun _ e more =>
        outcome true ⟨outer, ps ++ [.node e.kind e.parts]⟩ more := by
    subst hahead
    refine knows.gives_indexTail hk n _ rest _ (by simp at hlen; omega) ?_
    rintro i rest rfl hread
    have hpos := hread.length_pos rfl
    exact h (.node .indexExpr (p :: (q ++ i))) rest (by simp) (by simp at hpos ⊢; omega)
      (.index (by simpa using hp) hq hcalls hread)
  have hmember (t : Lookahead) (rest : List Lookahead) (hahead : ahead = t :: rest)
      (ht : t.kind = .dot ∨ calls = true ∧ t.kind = .questionDot) :
      r.Finds memberName n ⟨.memberExpr, [p, .leaf t]⟩ rest fun _ e more =>
        outcome true ⟨outer, ps ++ [.node e.kind e.parts]⟩ more := by
    subst hahead
    refine finds_memberName ?_
    rintro name rest rfl hname
    have hless : rest.length < (t :: name :: rest).length := by
      simp only [List.length_cons]
      omega
    exact h (.node .memberExpr [p, .leaf t, .node .memberName [.leaf name]]) rest (by simp) hless
      (.member hp ht hname)
  refine finds_look ?_
  rw [kind_viewOf]
  split
  · rename_i hnext
    refine finds_wrap (finds_seq (finds_next hnext nofun fun t rest hahead ht => ?_))
    exact hmember t rest hahead (.inl ht)
  · rename_i hnext
    have hcalls := hcall (by rw [hnext]; rfl)
    split
    · refine finds_wrap (finds_seq (finds_next hnext nofun fun t rest hahead ht => ?_))
      exact hargs [.leaf t] rest hahead (.inr ⟨t, ht, rfl⟩) hcalls
    · refine finds_wrap (finds_seq (finds_next hnext nofun fun t rest hahead ht => ?_))
      exact hindex [.leaf t] rest hahead (.inr ⟨t, ht, rfl⟩) fun _ => hcalls
    · refine finds_wrap (finds_seq (finds_next hnext nofun fun t rest hahead ht => ?_))
      exact hmember t rest hahead (.inr ⟨hcalls, ht⟩)
  · exact finds_wrap (hindex [] ahead rfl (.inl rfl) fun hne => absurd rfl hne)
  · rename_i hnext
    exact finds_wrap (hargs [] ahead rfl (.inl rfl) (hcall (by rw [hnext]; rfl)))
  · rename_i hnext
    have hcalls := hcall (by rw [hnext]; rfl)
    subst hcalls
    refine finds_wrap (knows.gives_template hk n _ ahead _ hlen ?_)
    rintro l rest rfl hread
    obtain ⟨s, rfl⟩ := hread.single_group
    have hpos := hread.length_pos rfl
    exact h (.node .taggedTemplate [p, s]) rest (by simp) (by simp at hpos ⊢; omega)
      (.tagged hp hread)
  · cases calls <;> simp_all [chainLinks, linkKinds]

theorem finds_links {calls : Bool} {goOn : View → Bool} {outer : NodeKind} {ps : List Phrase}
    {p : Phrase} (hlen : ahead.length ≤ k) (hp : Reads (.chain calls) n [p] ahead)
    (hgo : ∀ rest, goOn (viewOf n rest) = (viewOf n rest).nextIn (chainLinks calls))
    (h : ∀ q rest, words [p] ++ ahead = words [q] ++ rest → Reads (.chain calls) n [q] rest →
      (viewOf n rest).nextIn (chainLinks calls) = false → outcome true ⟨outer, ps ++ [q]⟩ rest) :
    r.Finds (many goOn link) n ⟨outer, ps ++ [p]⟩ ahead outcome := by
  have hlimit := knows.limit
  refine finds_many (fun e rest => ∃ q, e = ⟨outer, ps ++ [q]⟩ ∧
    words [p] ++ ahead = words [q] ++ rest ∧ Reads (.chain calls) n [q] rest) (by omega)
    ⟨p, rfl, rfl, hp⟩ ?_ ?_
  · rintro e rest ⟨q, rfl, hwords, hq⟩ hnext hle
    refine knows.finds_link hk (by omega) hq (by rwa [← hgo]) fun q' more hmore hless hq' => ?_
    exact ⟨⟨q', rfl, hwords.trans hmore, hq'⟩, hless⟩
  · rintro e rest ⟨q, rfl, hwords, hq⟩ hnext
    exact h q rest hwords hq (by rwa [← hgo])

end

/-! ## Operands -/

section

variable (knows : Knows r m rank) {k : Nat} (hk : k < m)

include knows hk

theorem finds_methodRest {e : Draft} (hlen : rest.length ≤ k)
    (h : ∀ ps b more, rest = words [ps, b] ++ more → Reads (.group .parameterList) n [ps] (words [b]
      ++ more) → Reads (.group .block) n [b] more → outcome true (e.add [ps, b]) more) :
    r.Finds parameterList n e rest fun _ f more => r.Finds block n f more outcome := by
  refine knows.gives_parameterList (Nat.le_of_lt hk) n e rest _ hlen ?_
  rintro l rest rfl hparameters
  obtain ⟨ps, rfl⟩ := hparameters.single_group
  refine knows.gives_block (Nat.le_of_lt hk) n _ rest _ (by simp at hlen; omega) ?_
  rintro l rest rfl hblock
  obtain ⟨b, rfl⟩ := hblock.single_group
  simpa using h ps b rest (by simp) hparameters hblock

theorem gives_property : r.Gives k property (.item .property) := by
  intro n d ahead outcome hlen h
  refine finds_look ?_
  split
  · rename_i hnext
    exact knows.finds_spread hk (.inr rfl) hlen (by simpa using hnext) h
  · split
    · exact finds_node finds_report
    · split
      · exact finds_node finds_report
      · split
        · rename_i hasync
          simp only [Bool.and_eq_true, Bool.not_eq_true'] at hasync
          have hident : (front ahead).kind = .ident := by
            have hkind := (Bool.and_eq_true _ _ ▸ hasync.1.1 : _ ∧ _).1
            simpa using hkind
          refine finds_node (finds_seq (finds_seq (finds_seq (finds_next hident nofun ?_))))
          rintro t rest rfl ht
          rw [breakAt_one] at hasync
          refine knows.gives_propertyKey hk n _ rest _ (by simp at hlen; omega) ?_
          rintro l rest rfl hkey
          obtain ⟨q, rfl⟩ := hkey.single_key
          refine knows.finds_methodRest hk (by simp at hlen; omega) ?_
          rintro ps b rest rfl hparameters hblock
          refine h [.node .method ([.leaf t] ++ [q, ps, b])] rest (by simp)
            (.method (.inr ⟨t, hasync.1.1, rfl⟩) (fun _ => ?_) hkey hparameters hblock)
          simpa using hasync.2
        · split
          · rename_i hshort
            simp only [next_viewOf, Bool.and_eq_true, beq_iff_eq] at hshort
            refine finds_node (finds_node (finds_next hshort.1 nofun ?_))
            rintro t rest rfl ht
            refine h [.node .property [.node .nameRef [.leaf t]]] rest rfl (.shorthand ht ?_)
            simpa using hshort.2
          · refine finds_node (finds_seq (knows.gives_propertyKey hk n _ ahead _ hlen ?_))
            rintro l rest rfl hkey
            obtain ⟨q, rfl⟩ := hkey.single_key
            refine finds_look ?_
            split
            · refine finds_seq (finds_seq (finds_become ?_))
              refine knows.finds_methodRest hk (by simp at hlen; omega) ?_
              rintro ps b rest rfl hparameters hblock
              exact h [.node .method ([] ++ [q, ps, b])] rest (by simp)
                (.method (.inl rfl) (fun hne => absurd rfl hne) hkey hparameters hblock)
            · refine finds_seq (finds_expect nofun ?_)
              rintro t rest rfl ht
              refine knows.deep .assignment nofun k hk n _ rest _ (by simp at hlen; omega) ?_
              rintro l rest rfl hvalue
              obtain ⟨v, rfl⟩ := hvalue.single_category
              exact h [.node .property [q, .leaf t, v]] rest (by simp) (.keyValue hkey ht hvalue)

end

section

variable (knows : Knows r m rank) {k : Nat} (hk : k ≤ m)

include knows hk

theorem gives_newExpression :
    r.GivesAt k .newKw newExpression (.category .newExpression) := by
  intro n d ahead outcome hlen hnext h
  refine finds_node (finds_seq (finds_next hnext nofun ?_))
  rintro t rest rfl ht
  -- Behind the callee.
  have hlinks (p : Phrase) (more : List Lookahead) (hrest : rest = words [p] ++ more)
      (hp : Reads (.category .primary) n [p] more) :
      r.Finds (many (fun v => !v.failed && v.nextIn [.dot, .lBracket]) link ++
        whenNext .lParen argumentList) n ⟨.newExpr, [.leaf t] ++ [p]⟩ more fun _ e rest =>
          outcome true (d.add [.node e.kind e.parts]) rest := by
    subst hrest
    have hchain : Reads (.chain false) n [p] more := .operand hp
    refine finds_seq (knows.finds_links hk (by simp at hlen; omega) hchain (fun _ => rfl) ?_)
    intro q more hwords hq hstop
    rw [hwords] at hlen h
    refine finds_whenNext (fun _ => ?_) fun hparen => ?_
    · refine knows.gives_argumentList hk n _ more _ (by simp at hlen; omega) ?_
      rintro l more rfl hread
      obtain ⟨a, rfl⟩ := hread.single_group
      exact h (.node .newExpr [.leaf t, q, a]) more (by simp) (.construct ht hq hread)
    · refine h (.node .newExpr [.leaf t, q]) more (by simp) (.constructBare ht hq ?_)
      rw [nextIn_viewOf] at hstop ⊢
      simp_all [chainLinks]
  refine finds_andThen (finds_look ?_)
  rw [next_viewOf]
  split
  · rename_i hnew
    refine knows.deepNew rest.length (by simp at hlen; omega) n _ rest _ (Nat.le_refl _)
      (beq_iff_eq.mp hnew) fun p more hrest hread => ?_
    exact ⟨rfl, hlinks p more hrest (.created hread)⟩
  · refine knows.deep .primary nofun rest.length (by simp at hlen; omega) n _ rest _ (Nat.le_refl _) ?_
    intro l more hrest hread
    obtain ⟨p, rfl⟩ := hread.single_category
    exact ⟨rfl, hlinks p more hrest hread⟩

end

theorem gives_primary (knows : Knows r m Category.primary.rank) :
    r.Gives m primary (.category .primary) := by
  intro n d ahead outcome hlen h
  have hlimit := knows.limit
  have hgroup (what : Enclosure) (rule : Rule) (hwhat : what.isOperand = true)
      (hgives : r.Gives m rule (.group what)) : r.Finds rule n d ahead outcome :=
    hgives n d ahead _ hlen fun l rest hahead hread => by
      obtain ⟨p, rfl⟩ := hread.single_group
      exact h [p] rest hahead (.operandGroup hwhat hread)
  have hliteral (hkind : isLiteral (front ahead).kind = true) :
      r.Finds (node .literal (eat (front ahead).kind)) n d ahead outcome := by
    refine finds_node (finds_next rfl ?_ ?_)
    · intro heof
      rw [heof] at hkind
      cases hkind
    · rintro t rest rfl -
      exact h [.node .literal [.leaf t]] rest rfl (.literal hkind)
  have hfunction (hstart : (front ahead).kind = .functionKw ∨
      (viewOf n ahead).startsAsyncFunction = true) : r.Finds functionExpr n d ahead outcome := by
    refine finds_node (knows.finds_functionTail (Nat.le_refl m) hlen hstart fun l rest hahead hread => ?_)
    exact h [.node .functionExpr l] rest (by simpa using hahead) (.functionValue hread)
  refine finds_look ?_
  rw [kind_viewOf]
  split
  iterate 6 exact hliteral (‹(front ahead).kind = _› ▸ rfl)
  · rename_i hkind
    split
    · exact hfunction (.inr ‹_›)
    · rename_i hasync
      refine finds_node (finds_next hkind nofun ?_)
      rintro t rest rfl ht
      exact h [.node .nameRef [.leaf t]] rest rfl (.reference ht (by simpa using hasync))
  · rename_i hkind
    refine finds_node (finds_next hkind nofun ?_)
    rintro t rest rfl ht
    exact h [.node .thisExpr [.leaf t]] rest rfl (.this ht)
  · exact hgroup .parenthesis _ rfl (gives_group .parenthesis rfl fun j hj =>
      (knows.deep .expression nofun j hj).succeed.free)
  · exact hgroup .array _ rfl (gives_group .array rfl fun j hj =>
      (gives_separatedWithHoles (by omega) (knows.gives_element hj)).free)
  · exact hgroup .objectLiteral _ rfl (gives_group .objectLiteral rfl fun j hj =>
      (gives_separated (by omega) (knows.gives_property hj)).free)
  · exact hgroup .template _ rfl (knows.gives_template (Nat.le_refl m))
  · rename_i hkind
    exact knows.lowNew (by decide) n d ahead _ hlen hkind fun p rest hahead hread =>
      h [p] rest hahead (.created hread)
  · exact hfunction (.inl ‹_›)
  iterate 3 exact finds_report

/-! ## Operators -/

theorem gives_unary (knows : Knows r m Category.unary.rank) : r.Gives m unary (.category .unary) := by
  intro n d ahead outcome hlen h
  refine finds_look ?_
  rw [next_viewOf, kind_viewOf]
  split
  · rename_i hnext
    refine finds_node (finds_seq (finds_next (beq_iff_eq.mp hnext) nofun ?_))
    rintro t rest rfl ht
    refine knows.deep .unary nofun rest.length hlen n _ rest _ (Nat.le_refl _) ?_
    rintro l rest rfl hread
    obtain ⟨p, rfl⟩ := hread.single_category
    exact h [.node .awaitExpr [.leaf t, p]] rest (by simp) (.await ht hread)
  · split
    · rename_i hlead
      refine finds_node (finds_seq (finds_next rfl ?_ ?_))
      · intro heof
        rw [heof] at hlead
        cases hlead
      · rintro t rest rfl -
        refine knows.deep .unary nofun rest.length hlen n _ rest _ (Nat.le_refl _) ?_
        rintro l rest rfl hread
        obtain ⟨p, rfl⟩ := hread.single_category
        exact h [.node .prefixExpr [.leaf t, p]] rest (by simp) (.lead hlead hread)
    · refine finds_andThen (finds_andThen (knows.low .primary nofun (by decide) n d ahead _ hlen ?_))
      rintro l rest rfl hread
      obtain ⟨p, rfl⟩ := hread.single_category
      have hchain : Reads (.chain true) n [p] rest := .operand hread
      refine ⟨rfl, knows.finds_links (Nat.le_refl m) (by simp at hlen; omega) hchain (fun _ => rfl) ?_⟩
      intro q rest hwords hq hstop
      refine ⟨rfl, finds_look ?_⟩
      split
      · rename_i htrail
        simp only [nextIn_viewOf, breakAt_viewOf, Bool.and_eq_true, Bool.not_eq_true'] at htrail
        refine finds_wrap (finds_next (kind_viewOf n rest).symm ?_ ?_)
        · intro heof
          rw [kind_viewOf] at heof
          rw [heof] at htrail
          exact absurd htrail.1 (by decide)
        · rintro t rest rfl -
          refine h [.node .postfixExpr [q, .leaf t]] rest (hwords.trans (by simp))
            (.trail hq ?_ htrail.2)
          simpa using htrail.1
      · rename_i htrail
        refine finds_skip (h [q] rest hwords (.linked hq hstop ?_))
        simp only [breakAt_viewOf, Bool.and_eq_true, Bool.not_eq_true', not_and, Bool.not_eq_false]
          at htrail
        cases hnext : (viewOf n rest).nextIn [.plusPlus, .minusMinus] with
        | false => exact .inl rfl
        | true => exact .inr (htrail hnext)

theorem gives_binary (floor : Nat) (knows : Knows r m (Category.binary floor).rank) :
    r.Gives m (binary floor) (.category (.binary floor)) := by
  intro n d ahead outcome hlen h
  have hlimit := knows.limit
  refine finds_andThen (knows.low .unary (by decide) (Nat.lt_succ_self 3) n d ahead _ hlen ?_)
  rintro l rest rfl hread
  obtain ⟨p, rfl⟩ := hread.single_category
  refine ⟨rfl, ?_⟩
  simp only [List.length_append] at hlen
  refine finds_many (fun e more => ∃ q, e = d.add [q] ∧
    words [p] ++ rest = words [q] ++ more ∧ Reads (.operands floor) n [q] more) (by omega)
    ⟨p, rfl, rfl, .firstOperand hread⟩ ?_ ?_
  · rintro e more ⟨q, rfl, hwords, hq⟩ hgo hle
    change (viewOf n more).power?.any (floor ≤ ·.left) = true at hgo
    have hother (power : Nat) : Category.binary power ≠ .newExpression := by
      intro h
      cases h
    refine finds_look ?_
    split
    · rename_i power hpower
      rw [hpower] at hgo
      refine finds_wrap (finds_seq (finds_next (kind_viewOf n more).symm ?_ ?_))
      · intro heof
        rw [View.power?, heof] at hpower
        split at hpower <;> cases hpower
      · rintro t more rfl -
        refine knows.deep (.binary power.right) (hother _) more.length (by simp at hle; omega) n _
          more _ (Nat.le_refl _) ?_
        rintro l more rfl hread
        obtain ⟨s, rfl⟩ := hread.single_category
        have hless : more.length < (t :: (words [s] ++ more)).length := by
          simp only [List.length_cons, List.length_append]
          omega
        refine ⟨⟨.node .binaryExpr [q, .leaf t, s], rfl, hwords.trans (by simp), ?_⟩, hless⟩
        exact .join hq hpower (by simpa using hgo) hread
    · rename_i hnone
      rw [hnone] at hgo
      cases hgo
  · rintro e more ⟨q, rfl, hwords, hq⟩ hstop
    exact h [q] more hwords (.joined hq (by simpa using hstop))

theorem gives_assignment (knows : Knows r m Category.assignment.rank) :
    r.Gives m assignment .assignment := by
  intro n d ahead outcome hlen h
  refine finds_look ?_
  split
  · rename_i harrow
    exact knows.finds_arrow (Nat.le_refl m) hlen harrow fun p rest hahead hread =>
      h [p] rest hahead hread
  · rename_i harrow
    rw [Bool.not_eq_true] at harrow
    split
    · exact finds_report
    · refine finds_andThen (knows.low (.binary 0) nofun (by decide) n d ahead _ hlen ?_)
      rintro l rest rfl hread
      obtain ⟨p, rfl⟩ := hread.single_category
      refine ⟨rfl, finds_look ?_⟩
      rw [next_viewOf, kind_viewOf]
      split
      · rename_i hnext
        refine finds_wrap (finds_seq (finds_seq (finds_seq (finds_next (beq_iff_eq.mp hnext) nofun ?_))))
        rintro q rest rfl hq
        refine finds_withNoIn (knows.deep .assignment nofun rest.length (by simp at hlen; omega) false _
          rest _ (Nat.le_refl _) ?_)
        rintro l rest rfl hfirst
        obtain ⟨a, rfl⟩ := hfirst.single_category
        refine finds_expect nofun ?_
        rintro c rest rfl hc
        refine knows.deep .assignment nofun rest.length (by simp at hlen; omega) n _ rest _
          (Nat.le_refl _) ?_
        rintro l rest rfl hsecond
        obtain ⟨b, rfl⟩ := hsecond.single_category
        exact h [.node .condExpr [p, .leaf q, a, .leaf c, b]] rest (by simp)
          (.conditional hread harrow hq hfirst hc hsecond)
      · split
        · rename_i hassign
          refine finds_wrap (finds_seq (finds_next rfl ?_ ?_))
          · intro heof
            rw [heof] at hassign
            cases hassign
          · rintro t rest rfl -
            refine knows.deep .assignment nofun rest.length (by simp at hlen; omega) n _ rest _
              (Nat.le_refl _) ?_
            rintro l rest rfl hvalue
            obtain ⟨v, rfl⟩ := hvalue.single_category
            exact h [.node .assignExpr [p, .leaf t, v]] rest (by simp)
              (.assign hread harrow hassign hvalue)
        · rename_i hquestion hassign
          exact finds_skip (h [p] rest rfl (.unassigned hread harrow (by simpa using hquestion)
            (by simpa using hassign)))

theorem gives_expression (knows : Knows r m Category.expression.rank) :
    r.Gives m expression .expression := by
  intro n d ahead outcome hlen h
  have hlimit := knows.limit
  refine finds_andThen (knows.low .assignment nofun (by decide) n d ahead _ hlen ?_)
  rintro l rest rfl hread
  obtain ⟨p, rfl⟩ := hread.single_category
  have hpos := hread.length_pos rfl
  simp only [List.length_append] at hlen
  refine ⟨rfl, finds_whenNext (fun hnext => ?_) fun hother =>
    h [p] rest rfl (.single hread hother)⟩
  refine finds_wrap (finds_list (Reads .commas n) (by omega) (fun e more hgo hle => ?_)
    (fun more hstop => .noComma (by simpa using hstop)) ?_)
  · refine finds_seq (finds_next (by simpa using hgo) nofun ?_)
    rintro t more rfl ht
    refine knows.deep .assignment nofun more.length (by simp at hle; omega) n _ more _ (Nat.le_refl _) ?_
    rintro l more rfl hvalue
    obtain ⟨v, rfl⟩ := hvalue.single_category
    have hless : more.length < (t :: (words [v] ++ more)).length := by
      simp only [List.length_cons, List.length_append]
      omega
    refine ⟨[.leaf t, v], by simp, by simp, .inl ⟨rfl, hless, ?_⟩⟩
    rintro l after rfl hl
    exact .comma ht hvalue hl
  · rintro l more rfl hcommas
    refine h [.node .sequenceExpr (p :: l)] more (by simp) (.sequence hread ?_ hcommas)
    rintro rfl
    cases hcommas with
    | noComma hother => exact hother hnext

end Knows

end ShellAwait.Grammar
