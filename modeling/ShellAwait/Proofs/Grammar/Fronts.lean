import ShellAwait.Proofs.Grammar.Phrases

/-! # First tokens and nesting

Two facts about the words of the grammar by which the rules decide: the kinds of tokens that a part
can begin with, and that brackets of every kind are closed in the part that opens them.
-/

namespace ShellAwait.Grammar

open Phrase

variable {part : Part} {l : List Phrase} {kind : TokenKind} {n : Bool} {rest : List Lookahead}

/-! ## First tokens -/

def startsPattern : TokenKind → Bool
  | .ident | .lBracket | .lBrace => true
  | _ => false

def startsKey (kind : TokenKind) : Bool := isPlainKey kind || kind == .lBracket

def startsOperand : TokenKind → Bool
  | .ident | .thisKw | .lParen | .lBracket | .lBrace | .templateStart | .newKw
  | .functionKw => true
  | kind => isLiteral kind

def startsValue (kind : TokenKind) : Bool :=
  startsOperand kind || kind == .awaitKw || leadsOperand kind

/-- Kinds that begin a statement that is no expression. -/
def startsOrder : TokenKind → Bool
  | .ifKw | .whileKw | .doKw | .forKw | .returnKw | .breakKw | .continueKw | .throwKw | .tryKw
  | .switchKw | .semicolon => true
  | kind => isDeclarer kind

def Item.starts : Item → TokenKind → Bool
  | .patternElement, kind | .parameter, kind => kind == .dotDotDot || startsPattern kind
  | .patternEntry, kind | .property, kind => kind == .dotDotDot || startsKey kind
  | .element, kind => kind == .dotDotDot || startsValue kind

namespace Part

/-- The kinds that a part begins with where it is not empty. -/
def starts : Part → TokenKind → Bool
  | .category .statement, kind | .statements, kind => startsOrder kind || startsValue kind
  | .category .pattern, kind | .withDefault, kind => startsPattern kind
  | .category .primary, kind | .chain _, kind => startsOperand kind
  | .category .newExpression, kind => kind == .newKw
  | .category .expression, kind | .category .assignment, kind | .category .unary, kind
  | .category (.binary _), kind | .operands _, kind | .arrowBody, kind
  | .clause, kind => startsValue kind
  | .key, kind => startsKey kind
  | .initializer, kind => kind == .eq
  | .function _, kind => kind == .ident || kind == .functionKw
  | .arrowParameters, kind => kind == .ident || kind == .lParen
  | .templateParts, kind => kind == .templateContent || kind == .interpolationStart
  | .commas, kind | .declarators, kind => kind == .comma
  | .item what, kind => what.starts kind
  | .items what holes, kind => what.starts kind || holes && kind == .comma
  | .enclosed what, kind | .group what, kind => kind == what.opener
  | .terminator, kind | .clauses, kind => kind == .semicolon
  | .declaration, kind => isDeclarer kind
  | .otherwise, kind => kind == .elseKw
  | .headFirst, kind => isDeclarer kind || startsValue kind
  | .head _, kind => kind == .semicolon || isDeclarer kind || startsValue kind
  | .catching, kind => kind == .catchKw
  | .ending, kind => kind == .finallyKw
  | .handlers, kind => kind == .catchKw || kind == .finallyKw
  | .switchCases, kind => kind == .caseKw || kind == .defaultKw

/-- Whether a part always has a token. -/
def isSolid : Part → Bool
  | .statements | .clause | .initializer | .templateParts | .commas | .declarators | .items _ _
  | .terminator | .otherwise | .switchCases => false
  | _ => true

end Part

/-- A part is empty, where it may be, or begins with a token of one of its kinds. -/
def Begins (part : Part) (l : List Phrase) : Prop :=
  part.isSolid = false ∧ l = [] ∨ ∃ t w, words l = t :: w ∧ part.starts t.kind = true

theorem Begins.mono {other : Part} {m : List Phrase} (h : Begins part l)
    (hsolid : part.isSolid = true)
    (hsub : ∀ kind, part.starts kind = true → other.starts kind = true)
    (hwords : words l <+: words m) : Begins other m := by
  rcases h with ⟨hempty, -⟩ | ⟨t, w, hw, ht⟩
  · rw [hsolid] at hempty
    cases hempty
  · obtain ⟨v, hv⟩ := hwords
    exact .inr ⟨t, w ++ v, by rw [← hv, hw, List.cons_append], hsub _ ht⟩

theorem Begins.leaf {t : Lookahead} {w : List Lookahead} (hwords : words l = t :: w)
    (ht : part.starts t.kind = true) : Begins part l :=
  .inr ⟨t, w, hwords, ht⟩

theorem startsValue_of_operand (h : startsOperand kind = true) : startsValue kind = true := by
  simp [startsValue, h]

theorem startsValue_of_lead (h : leadsOperand kind = true) : startsValue kind = true := by
  simp [startsValue, h]

theorem startsOperand_of_literal (h : isLiteral kind = true) : startsOperand kind = true := by
  revert h
  cases kind <;> decide

theorem startsOperand_opener {what : Enclosure} (h : what.isOperand = true) :
    startsOperand what.opener = true := by
  revert h
  cases what <;> decide

theorem startsPattern_opener {what : Enclosure} (h : what.isPattern = true) :
    startsPattern what.opener = true := by
  revert h
  cases what <;> decide

theorem startsOrder_jump {node : NodeKind} (h : jumpKind? kind = some node) :
    startsOrder kind = true := by
  revert h
  cases kind <;> first | exact fun _ => rfl | exact nofun

theorem startsOrder_declarer (h : isDeclarer kind = true) : startsOrder kind = true := by
  revert h
  cases kind <;> decide

theorem Reads.begins (h : Reads part n l rest) : Begins part l := by
  induction h with
  -- Nothing is there.
  | noItem | noInitializer | noPart | noComma | noStatement | ended | noDeclarator | noElse
  | noClause | noCase => exact .inl ⟨rfl, rfl⟩
  -- A token of its own comes first.
  | enclosed _ ht | hole ht | name ht | initializer ht | arrowName ht | templateText ht | reference ht
  | this ht | constructBare ht | construct ht | await ht | comma ht | semicolon ht
  | declarator ht | otherwise ht | clauses ht | catching ht | catchingAs ht | ending ht | case ht
  | defaultCase ht =>
      exact .leaf rfl (by simp [Part.starts, startsPattern, startsOperand, startsValue, ht])
  | choice ht | whileLoop ht | doWhile ht | loop ht | result ht | noResult ht | throw ht | attempt ht
  | switch ht | empty ht => exact .leaf rfl (by simp [Part.starts, startsOrder, ht])
  | restElement hitem ht | spread hitem ht =>
      rcases hitem with rfl | rfl <;> exact .leaf rfl (by simp [Part.starts, Item.starts, ht])
  | shorthand ht =>
      exact .leaf rfl (by simp [Part.starts, Item.starts, startsKey, isPlainKey, ht])
  | plainKey ht => exact .leaf rfl (by simp [Part.starts, startsKey, ht])
  | literal ht => exact .leaf rfl (startsOperand_of_literal ht)
  | lead ht => exact .leaf rfl (startsValue_of_lead ht)
  | declaration ht => exact .leaf rfl ht
  | jump ht => exact .leaf rfl (by simp [Part.starts, startsOrder_jump ht])
  -- Another part comes first.
  | group _ _ ih | noDefault _ _ ih | default _ _ _ ih | operand _ ih | member _ _ _ ih
  | index _ _ _ _ ih | call _ _ _ ih | tagged _ _ ih | firstOperand _ ih | join _ _ _ _ ih
  | joined _ _ ih | conditional _ _ _ _ _ _ ih | assign _ _ _ _ ih | unassigned _ _ _ _ ih
  | single _ _ ih | sequence _ _ _ ih | arrowValue _ _ ih | clause _ ih | statement _ _ ih =>
      exact ih.mono rfl (fun _ h => h) (by simp)
  | headOpen _ ih => exact ih.mono rfl (fun _ h => by simp_all [Part.starts]) (by simp)
  | linked _ _ _ ih | trail _ _ _ ih => exact ih.mono rfl (fun _ => startsValue_of_operand) (by simp)
  | patternElement _ ih | value _ ih | lastItem _ ih | nextItem _ _ _ ih | keyValue _ _ _ ih
  | patternKey _ _ _ ih | headDeclaration _ ih | headExpression _ ih | effect _ _ _ ih
  | caught _ _ ih | caughtEnding _ _ ih | onlyEnding _ ih =>
      exact ih.mono rfl (fun _ h => by simp_all [Part.starts, Item.starts]) (by simp)
  | headSet _ _ ih | headOf _ _ _ _ ih | headIn _ _ _ ih =>
      refine ih.mono rfl (fun kind h => ?_) (by simp)
      change (kind == .semicolon || isDeclarer kind || startsValue kind) = true
      rw [Bool.or_assoc, Bool.or_eq_true]
      exact .inr h
  | variableStatement _ _ ih =>
      exact ih.mono rfl (fun _ h => by simp [Part.starts, startsOrder_declarer h]) (by simp)
  | created _ ih | block _ ih | interpolation _ _ ih | computedKey _ ih | arrowBlock _ ih
  | arrowList _ ih =>
      exact ih.mono rfl (fun kind h => by rw [beq_iff_eq.mp h]; rfl) (by simp)
  | functionStatement _ ih | functionValue _ ih =>
      refine ih.mono rfl (fun kind h => ?_) (by simp)
      rcases Bool.or_eq_true _ _ ▸ h with h | h <;> rw [beq_iff_eq.mp h] <;> rfl
  | patternGroup hwhat _ ih =>
      exact ih.mono rfl (fun kind h => by rw [beq_iff_eq.mp h]; exact startsPattern_opener hwhat) (by simp)
  | operandGroup hwhat _ ih =>
      exact ih.mono rfl (fun kind h => by rw [beq_iff_eq.mp h]; exact startsOperand_opener hwhat) (by simp)
  | patternName _ hident _ ih =>
      rcases ih with ⟨hempty, -⟩ | ⟨t, w, hw, -⟩
      · cases hempty
      · have ht : t.kind = .ident := by simpa [viewOf, View.kind, View.kindAt, View.nth, hw] using hident
        exact .leaf (by simpa using hw) (by simp [Part.starts, Item.starts, startsKey, isPlainKey, ht])
  | parameter hdots _ _ ih =>
      rcases hdots with rfl | ⟨t, ht, rfl⟩
      · exact ih.mono rfl (fun _ h => by simp_all [Part.starts, Item.starts]) (by simp)
      · exact .leaf rfl (by simp [Part.starts, Item.starts, ht])
  | function hasync _ ht =>
      rcases hasync with rfl | ⟨a, ha, rfl⟩
      · exact .leaf rfl (by simp [Part.starts, ht])
      · exact .leaf rfl (by simp_all [Part.starts, Lookahead.isAsync])
  | arrow hasync _ _ _ _ ih =>
      rcases hasync with rfl | ⟨a, ha, rfl⟩
      · refine ih.mono rfl (fun kind h => ?_) (by simp)
        rcases Bool.or_eq_true _ _ ▸ h with h | h <;> rw [beq_iff_eq.mp h] <;> rfl
      · exact .leaf rfl (by simp_all [Part.starts, Lookahead.isAsync, startsValue, startsOperand])
  | method hasync _ _ _ _ ih =>
      rcases hasync with rfl | ⟨a, ha, rfl⟩
      · exact ih.mono rfl (fun _ h => by simp_all [Part.starts, Item.starts]) (by simp)
      · exact .leaf rfl
          (by simp_all [Part.starts, Lookahead.isAsync, Item.starts, startsKey, isPlainKey])

theorem Reads.length_pos (h : Reads part n l rest) (hsolid : part.isSolid = true) :
    0 < (words l).length := by
  rcases h.begins with ⟨hempty, -⟩ | ⟨t, w, hw, -⟩
  · rw [hsolid] at hempty
    cases hempty
  · simp [hw]

/-! ## Nesting -/

/-- What closes something that a token of this kind opens. -/
def closer? : TokenKind → Option TokenKind
  | .lParen => some .rParen
  | .lBracket => some .rBracket
  | .lBrace => some .rBrace
  | .templateStart => some .templateEnd
  | .interpolationStart => some .interpolationEnd
  | _ => none

def isCloser : TokenKind → Bool
  | .rParen | .rBracket | .rBrace | .templateEnd | .interpolationEnd => true
  | _ => false

def isBracket (kind : TokenKind) : Bool := (closer? kind).isSome || isCloser kind

/-- What is opened in a word is closed in it by the token of its own kind, the last thing first, and
nothing else is closed. -/
inductive Bracketed : List TokenKind → Prop
  | nil : Bracketed []
  | plain {kind : TokenKind} {w : List TokenKind} :
      isBracket kind = false → Bracketed w → Bracketed (kind :: w)
  | enclosed {opener closer : TokenKind} {v w : List TokenKind} :
      closer? opener = some closer → Bracketed v → Bracketed w →
      Bracketed (opener :: (v ++ closer :: w))

theorem Bracketed.append {v w : List TokenKind} (hv : Bracketed v) (hw : Bracketed w) :
    Bracketed (v ++ w) := by
  induction hv with
  | nil => exact hw
  | plain hplain _ ih => exact .plain hplain ih
  | enclosed hcloser hinner _ _ ih =>
      rw [List.cons_append, List.append_assoc, List.cons_append]
      exact .enclosed hcloser hinner ih

/-- Tokens of a script that stand for themselves. -/
def standsAlone (kind : TokenKind) : Bool := !isBracket kind && kind != .eof && kind != .error

/-- A word that can stand within a script. -/
structure Tidy (w : List Lookahead) : Prop where
  bracketed : Bracketed (w.map (·.kind))
  within : ∀ t ∈ w, t.kind ≠ .eof ∧ t.kind ≠ .error

namespace Tidy

variable {t o c : Lookahead} {v w : List Lookahead}

theorem nil : Tidy [] := ⟨.nil, by simp⟩

theorem cons (ht : standsAlone t.kind = true) (hw : Tidy w) : Tidy (t :: w) := by
  simp only [standsAlone, Bool.and_eq_true, Bool.not_eq_true', bne_iff_ne] at ht
  refine ⟨.plain ht.1.1 hw.bracketed, fun u hu => ?_⟩
  rcases List.mem_cons.mp hu with rfl | hu
  · exact ⟨ht.1.2, ht.2⟩
  · exact hw.within u hu

theorem token (hw : Tidy w) (ht : t.kind = kind) (hkind : standsAlone kind = true) :
    Tidy (t :: w) := hw.cons (ht ▸ hkind)

theorem append (hv : Tidy v) (hw : Tidy w) : Tidy (v ++ w) := by
  refine ⟨by rw [List.map_append]; exact hv.bracketed.append hw.bracketed, fun u hu => ?_⟩
  rcases List.mem_append.mp hu with hu | hu
  · exact hv.within u hu
  · exact hw.within u hu

theorem enclosed {what : Enclosure} (ho : o.kind = what.opener) (hc : c.kind = what.closer)
    (hv : Tidy v) (hw : Tidy w) : Tidy (o :: (v ++ c :: w)) := by
  have hcloser : closer? o.kind = some c.kind := by
    rw [ho, hc]
    cases what <;> rfl
  refine ⟨?_, fun u hu => ?_⟩
  · rw [List.map_cons, List.map_append, List.map_cons]
    exact .enclosed hcloser hv.bracketed hw.bracketed
  · simp only [List.mem_cons, List.mem_append] at hu
    rcases hu with rfl | hu | rfl | hu
    · rw [ho]
      cases what <;> decide
    · exact hv.within u hu
    · rw [hc]
      cases what <;> decide
    · exact hw.within u hu

theorem optional (h : Optional kind l) (hplain : standsAlone kind = true) : Tidy (words l) := by
  rcases h with rfl | ⟨t, rfl, rfl⟩
  · exact nil
  · exact nil.cons hplain

end Tidy

theorem Lookahead.kind_of_isAsync {t : Lookahead} (h : Lookahead.isAsync t = true) :
    t.kind = .ident := by
  simp_all [Lookahead.isAsync]

theorem Modifier.optional (h : Modifier l) : Optional .ident l := by
  rcases h with rfl | ⟨t, ht, rfl⟩
  · exact .inl rfl
  · exact .inr ⟨t, Lookahead.kind_of_isAsync ht, rfl⟩

/-! No bracket is among the tokens that stand for themselves. -/

theorem alone_of_plainKey (h : isPlainKey kind = true) : standsAlone kind = true := by
  revert h
  cases kind <;> decide

theorem alone_of_memberName (h : isMemberName kind = true) : standsAlone kind = true := by
  revert h
  cases kind <;> decide

theorem alone_of_literal (h : isLiteral kind = true) : standsAlone kind = true := by
  revert h
  cases kind <;> decide

theorem alone_of_lead (h : leadsOperand kind = true) : standsAlone kind = true := by
  revert h
  cases kind <;> decide

theorem alone_of_power {t : Lookahead} {power : Power} (h : (viewOf n [t]).power? = some power) :
    standsAlone t.kind = true := by
  have hpower : (Grammar.power? t.kind).isSome = true := by
    simp only [View.power?] at h
    split at h
    · cases h
    · exact Option.isSome_of_eq_some h
  revert hpower
  cases t.kind <;> decide

theorem alone_of_assignment (h : kind.isAssignment = true) : standsAlone kind = true := by
  revert h
  cases kind <;> decide

theorem alone_of_declarer (h : isDeclarer kind = true) : standsAlone kind = true := by
  revert h
  cases kind <;> decide

theorem alone_of_jump {node : NodeKind} (h : jumpKind? kind = some node) :
    standsAlone kind = true := by
  revert h
  cases kind <;> first | exact fun _ => rfl | exact nofun

/-- The phrases of a part are parts themselves, at most one token, or tokens that stand alone. -/
theorem Reads.tidy (h : Reads part n l rest) : Tidy (words l) := by
  induction h with
  | enclosed _ ho hc _ ih => simpa using Tidy.enclosed ho hc ih .nil
  | @loop _ _ t o _ _ _ _ ht ho _ hc _ ihh ihp =>
      have hopener : o.kind = Enclosure.loopHead.opener := ho
      simpa using (Tidy.enclosed hopener hc ihh ihp).token ht rfl
  -- One part
  | group _ _ ih | patternName _ _ _ ih | functionValue _ ih | functionStatement _ ih
  | headDeclaration _ ih | headOpen _ ih => simpa using ih
  | lastItem _ ih | patternGroup _ _ ih | noDefault _ _ ih | patternElement _ ih
  | computedKey _ ih | arrowList _ ih | arrowBlock _ ih | arrowValue _ _ ih | operand _ ih
  | value _ ih | operandGroup _ _ ih | created _ ih | linked _ _ _ ih | firstOperand _ ih
  | joined _ _ ih | unassigned _ _ _ _ ih | single _ _ ih | block _ ih | headExpression _ ih
  | clause _ ih | caught _ _ ih | onlyEnding _ ih => exact ih
  -- Parts one after the other
  | interpolation _ _ ihp ihq | statement _ _ ihp ihq | tagged _ _ ihp ihq
  | sequence _ _ _ ihp ihq | variableStatement _ _ ihp ihq | headSet _ _ ihp ihq
  | caughtEnding _ _ ihp ihq | effect _ _ _ ihp ihq => simpa using ihp.append ihq
  | method hasync _ _ _ _ ihk ihp ihb =>
      simpa using (Tidy.optional hasync.optional rfl).append (ihk.append (ihp.append ihb))
  | parameter hd _ _ ihp ihi => simpa using (Tidy.optional hd rfl).append (ihp.append ihi)
  | index _ hq _ _ ihp ihi | call _ hq _ ihp ihi =>
      simpa using ihp.append ((Tidy.optional hq rfl).append ihi)
  -- One token or none
  | noItem | noPart | noComma | noStatement | noDeclarator | noCase | noInitializer | noElse
  | noClause | ended => exact .nil
  | name ht | arrowName ht | shorthand ht | reference ht | this ht | semicolon ht | empty ht =>
      exact Tidy.nil.token ht rfl
  | plainKey ht => exact Tidy.nil.cons (alone_of_plainKey ht)
  | literal ht => exact Tidy.nil.cons (alone_of_literal ht)
  -- A token in front of parts
  | hole ht _ ih | templateText ht _ ih | initializer ht _ ih | restElement _ ht _ ih
  | spread _ ht _ ih | constructBare ht _ _ ih | await ht _ ih | otherwise ht _ ih
  | noResult ht _ ih | catching ht _ ih | ending ht _ ih => simpa using ih.token ht rfl
  | lead ht _ ih => simpa using ih.cons (alone_of_lead ht)
  | jump ht _ ih => simpa using ih.cons (alone_of_jump ht)
  | comma ht _ _ ihp ihq | construct ht _ _ ihp ihq | whileLoop ht _ _ ihp ihq
  | result ht _ _ _ ihp ihq | throw ht _ _ _ ihp ihq | catchingAs ht _ _ ihp ihq
  | attempt ht _ _ ihp ihq | switch ht _ _ ihp ihq => simpa using (ihp.append ihq).token ht rfl
  | declarator ht _ _ _ ihp ihi ihl | choice ht _ _ _ ihp ihi ihl =>
      simpa using (ihp.append (ihi.append ihl)).token ht rfl
  | declaration ht _ _ _ ihp ihi ihl =>
      simpa using (ihp.append (ihi.append ihl)).cons (alone_of_declarer ht)
  | function hasync _ ht hname _ _ _ ihp ihb =>
      simpa using (Tidy.optional hasync.optional rfl).append
        (((Tidy.optional hname rfl).append (ihp.append ihb)).token ht rfl)
  | defaultCase ht hc _ _ ihl ihm => simpa using ((ihl.append ihm).token hc rfl).token ht rfl
  -- Tokens between parts
  | nextItem _ ht _ ihp ihq | default _ ht _ ihp ihq | patternKey _ ht _ ihp ihq
  | keyValue _ ht _ ihp ihq | headOf _ ht _ _ ihp ihq | headIn _ ht _ ihp ihq =>
      simpa using ihp.append (ihq.token ht rfl)
  | arrow hasync _ _ ht _ ihp ihb =>
      simpa using (Tidy.optional hasync.optional rfl).append (ihp.append (ihb.token ht rfl))
  | join _ ht _ _ ihp ihq => simpa using ihp.append (ihq.cons (alone_of_power ht))
  | assign _ _ ht _ ihp ihv => simpa using ihp.append (ihv.cons (alone_of_assignment ht))
  | @member _ _ _ t m _ _ ht hm ih =>
      have hlink : standsAlone t.kind = true := by
        rcases ht with ht | ⟨-, ht⟩ <;> rw [ht] <;> rfl
      simpa using ih.append ((Tidy.nil.cons (alone_of_memberName hm)).cons hlink)
  | @trail _ _ t _ _ ht _ ih =>
      have htrail : standsAlone t.kind = true := by
        rcases ht with ht | ht <;> rw [ht] <;> rfl
      simpa using ih.append (Tidy.nil.cons htrail)
  | conditional _ _ hq _ hc _ ihp iha ihb =>
      simpa using ihp.append ((iha.append (ihb.token hc rfl)).token hq rfl)
  | doWhile ht _ hw _ he _ ihp ihc =>
      simpa using (ihp.append ((ihc.append (Tidy.optional he rfl)).token hw rfl)).token ht rfl
  | clauses hs _ ht _ ihx ihy => simpa using (ihx.append (ihy.token ht rfl)).token hs rfl
  | case ht _ hc _ _ ihv ihl ihm =>
      simpa using (ihv.append ((ihl.append ihm).token hc rfl)).token ht rfl

/-- Take the brackets of a word on a stack and off it. An interpolation is told from other brackets;
at the end of the text nothing goes on. -/
def nest : List Bool → List Lookahead → Option (List Bool)
  | stack, [] => some stack
  | stack, t :: w =>
      match t.kind, stack with
      | .lParen, _ | .lBracket, _ | .lBrace, _ => nest (true :: stack) w
      | .interpolationStart, _ => nest (false :: stack) w
      | .rParen, true :: below | .rBracket, true :: below | .rBrace, true :: below => nest below w
      | .interpolationEnd, false :: below => nest below w
      | .rParen, _ | .rBracket, _ | .rBrace, _ | .interpolationEnd, _ | .eof, _ => none
      | _, _ => nest stack w

/-- Every bracket of a word is closed in it. -/
def Nested (w : List Lookahead) : Prop := ∀ stack, nest stack w = some stack

@[simp] theorem nest_nil (stack : List Bool) : nest stack [] = some stack := rfl

@[simp] theorem nest_append (stack : List Bool) (v w : List Lookahead) :
    nest stack (v ++ w) = (nest stack v).bind (nest · w) := by
  fun_induction nest stack v <;> simp_all [nest]

theorem nest_plain {t : Lookahead} {stack : List Bool} {w : List Lookahead}
    (h : isBracket t.kind = false) (hend : t.kind ≠ .eof) : nest stack (t :: w) = nest stack w := by
  cases hkind : t.kind <;> simp_all [nest, isBracket, closer?, isCloser]

theorem nest_enclosed {o c : Lookahead} {v : List Lookahead} (h : closer? o.kind = some c.kind)
    (hv : Nested v) (stack : List Bool) (w : List Lookahead) :
    nest stack (o :: (v ++ c :: w)) = nest stack w := by
  generalize hcloser : c.kind = closer at h
  cases hkind : o.kind <;> rw [hkind] at h <;> cases h <;> simp_all [nest, Nested]

theorem Tidy.nested {w : List Lookahead} (h : Tidy w) : Nested w := by
  obtain ⟨hbracketed, hwithin⟩ := h
  generalize hkinds : w.map (·.kind) = kinds at hbracketed
  induction hbracketed generalizing w with
  | nil =>
      rw [List.map_eq_nil_iff.mp hkinds]
      exact fun _ => rfl
  | plain hplain _ ih =>
      obtain ⟨t, rest, rfl, rfl, hrest⟩ := List.map_eq_cons_iff.mp hkinds
      intro stack
      rw [nest_plain hplain (hwithin t List.mem_cons_self).1]
      exact ih (fun u hu => hwithin u (List.mem_cons_of_mem t hu)) hrest stack
  | enclosed hcloser _ _ ihv ihw =>
      obtain ⟨o, rest, rfl, rfl, hrest⟩ := List.map_eq_cons_iff.mp hkinds
      obtain ⟨v, tail, rfl, hv, htail⟩ := List.map_eq_append_iff.mp hrest
      obtain ⟨c, after, rfl, rfl, hafter⟩ := List.map_eq_cons_iff.mp htail
      simp only [List.mem_cons, List.mem_append] at hwithin
      intro stack
      rw [nest_enclosed hcloser (ihv (fun u hu => hwithin u (.inr (.inl hu))) hv)]
      exact ihw (fun u hu => hwithin u (.inr (.inr (.inr hu)))) hafter stack

theorem Reads.nested (h : Reads part n l rest) : Nested (words l) := h.tidy.nested

end ShellAwait.Grammar
