import ShellAwait.Proofs.Script.Writes
import ShellAwait.Script.Names

/-! # Written names occur

Every name that a part of a script writes is among the names that occur in it.
-/

namespace ShellAwait.Script

theorem append_subset_append {a b c d : List String} (hab : a ⊆ b) (hcd : c ⊆ d) :
    a ++ c ⊆ b ++ d := by
  intro name hname
  rcases List.mem_append.mp hname with h | h
  · exact List.mem_append_left d (hab h)
  · exact List.mem_append_right b (hcd h)

mutual

theorem targetNames_subset (target : Expr) : targetNames target ⊆ exprNames target := by
  cases target with
  | name span name => exact List.Subset.refl _
  | paren span inner => exact targetNames_subset inner
  | array span elements => exact targetNamesAll_subset elements
  | object span members => exact memberTargetNames_subset members
  | spread span inner => exact targetNames_subset inner
  | assign span operator inner value =>
      exact List.Subset.trans (targetNames_subset inner) (List.subset_append_left _ _)
  | _ => exact List.nil_subset _

theorem targetNamesAll_subset (targets : List Expr) :
    targetNamesAll targets ⊆ exprNamesAll targets := by
  match targets with
  | [] => exact List.nil_subset _
  | target :: more =>
      exact append_subset_append (targetNames_subset target) (targetNamesAll_subset more)

theorem memberTargetNames_subset (members : List ObjectMember) :
    memberTargetNames members ⊆ memberNames members := by
  match members with
  | [] => exact List.nil_subset _
  | .property key value :: more =>
      exact append_subset_append (List.Subset.trans (targetNames_subset value)
        (List.subset_append_right _ _))
        (memberTargetNames_subset more)
  | .method key fn :: more =>
      exact List.Subset.trans (memberTargetNames_subset more) (List.subset_append_right _ _)
  | .spread inner :: more =>
      exact append_subset_append (targetNames_subset inner) (memberTargetNames_subset more)

end

theorem headNames_subset (head : Stmt) : headNames head ⊆ stmtNames head := by
  cases head with
  | expr span target terminated => exact targetNames_subset target
  | _ => exact List.nil_subset _

mutual

theorem names_subset (pattern : Pattern) : pattern.names ⊆ patternNames pattern := by
  match pattern with
  | .hole | .name .. => exact List.Subset.refl _
  | .withDefault span inner value =>
      exact List.Subset.trans (names_subset inner) (List.subset_append_left _ _)
  | .rest span inner => exact names_subset inner
  | .array span elements => exact namesAll_subset elements
  | .object span entries => exact namesOfEntries_subset entries

theorem namesAll_subset (patterns : List Pattern) :
    Pattern.namesAll patterns ⊆ patternNamesAll patterns := by
  match patterns with
  | [] => exact List.nil_subset _
  | pattern :: more => exact append_subset_append (names_subset pattern) (namesAll_subset more)

theorem namesOfEntries_subset (entries : List Entry) :
    Pattern.namesOfEntries entries ⊆ entryNames entries := by
  match entries with
  | [] => exact List.nil_subset _
  | .property key pattern :: more =>
      exact append_subset_append (List.Subset.trans (names_subset pattern)
        (List.subset_append_right _ _))
        (namesOfEntries_subset more)
  | .rest pattern :: more =>
      exact append_subset_append (names_subset pattern) (namesOfEntries_subset more)

end

mutual

theorem exprWrites_subset (expr : Expr) : exprWrites expr ⊆ exprNames expr := by
  match expr with
  | .hole | .literal .. | .name .. | .thisValue .. => exact List.nil_subset _
  | .template span parts => exact exprWritesAll_subset parts
  | .tagged span tag parts =>
      exact append_subset_append (exprWrites_subset tag) (exprWritesAll_subset parts)
  | .array span elements => exact exprWritesAll_subset elements
  | .object span members => exact memberWrites_subset members
  | .spread span inner => exact exprWrites_subset inner
  | .function span name fn =>
      exact append_subset_append (List.Subset.refl _) (functionWrites_subset fn)
  | .arrow span fn => exact functionWrites_subset fn
  | .paren span inner => exact exprWrites_subset inner
  | .member span object name optional => exact exprWrites_subset object
  | .index span object key =>
      exact append_subset_append (exprWrites_subset object) (exprWrites_subset key)
  | .call span callee arguments =>
      exact append_subset_append (exprWrites_subset callee) (exprWritesAll_subset arguments)
  | .construct span callee hasList arguments =>
      exact append_subset_append (exprWrites_subset callee) (exprWritesAll_subset arguments)
  | .unary span operator operand =>
      refine List.append_subset.mpr ⟨?_, exprWrites_subset operand⟩
      split
      · exact targetNames_subset operand
      · exact List.nil_subset _
  | .await span operand => exact exprWrites_subset operand
  | .update span operator operand =>
      exact List.append_subset.mpr ⟨targetNames_subset operand, exprWrites_subset operand⟩
  | .binary span operator left right =>
      exact append_subset_append (exprWrites_subset left) (exprWrites_subset right)
  | .assign span operator target value =>
      exact append_subset_append
        (List.append_subset.mpr ⟨targetNames_subset target, exprWrites_subset target⟩)
        (exprWrites_subset value)
  | .cond span test consequent alternate =>
      exact append_subset_append
        (append_subset_append (exprWrites_subset test) (exprWrites_subset consequent))
        (exprWrites_subset alternate)
  | .sequence span parts => exact exprWritesAll_subset parts

theorem exprWritesAll_subset (exprs : List Expr) : exprWritesAll exprs ⊆ exprNamesAll exprs := by
  match exprs with
  | [] => exact List.nil_subset _
  | expr :: more => exact append_subset_append (exprWrites_subset expr) (exprWritesAll_subset more)

theorem memberWrites_subset (members : List ObjectMember) :
    memberWrites members ⊆ memberNames members := by
  match members with
  | [] => exact List.nil_subset _
  | .property key value :: more =>
      exact append_subset_append
        (append_subset_append (keyWrites_subset key) (exprWrites_subset value))
        (memberWrites_subset more)
  | .method key fn :: more =>
      exact append_subset_append
        (append_subset_append (keyWrites_subset key) (functionWrites_subset fn))
        (memberWrites_subset more)
  | .spread inner :: more =>
      exact append_subset_append (exprWrites_subset inner) (memberWrites_subset more)

theorem keyWrites_subset (key : Key) : keyWrites key ⊆ keyNames key := by
  match key with
  | .hole | .name .. => exact List.nil_subset _
  | .computed span inner => exact exprWrites_subset inner

theorem functionWrites_subset (fn : Function) : functionWrites fn ⊆ functionNames fn := by
  match fn with
  | .mk span isAsync parameters body =>
      exact append_subset_append (bindingWrites_subset parameters) (stmtWrites_subset body)

theorem bindingWrites_subset (bindings : List Binding) :
    bindingWrites bindings ⊆ bindingNames bindings := by
  match bindings with
  | [] => exact List.nil_subset _
  | .mk isRest pattern value :: more =>
      exact append_subset_append (append_subset_append
        (List.append_subset.mpr ⟨names_subset pattern, patternWrites_subset pattern⟩)
        (exprWrites_subset value)) (bindingWrites_subset more)

theorem patternWrites_subset (pattern : Pattern) : patternWrites pattern ⊆ patternNames pattern := by
  match pattern with
  | .hole | .name .. => exact List.nil_subset _
  | .withDefault span inner value =>
      exact append_subset_append (patternWrites_subset inner) (exprWrites_subset value)
  | .rest span inner => exact patternWrites_subset inner
  | .array span elements => exact patternWritesAll_subset elements
  | .object span entries => exact entryWrites_subset entries

theorem patternWritesAll_subset (patterns : List Pattern) :
    patternWritesAll patterns ⊆ patternNamesAll patterns := by
  match patterns with
  | [] => exact List.nil_subset _
  | pattern :: more =>
      exact append_subset_append (patternWrites_subset pattern) (patternWritesAll_subset more)

theorem entryWrites_subset (entries : List Entry) : entryWrites entries ⊆ entryNames entries := by
  match entries with
  | [] => exact List.nil_subset _
  | .property key pattern :: more =>
      exact append_subset_append
        (append_subset_append (keyWrites_subset key) (patternWrites_subset pattern))
        (entryWrites_subset more)
  | .rest pattern :: more =>
      exact append_subset_append (patternWrites_subset pattern) (entryWrites_subset more)

theorem stmtWrites_subset (stmt : Stmt) : stmtWrites stmt ⊆ stmtNames stmt := by
  match stmt with
  | .hole | .empty .. | .breakOut .. | .continueOn .. => exact List.nil_subset _
  | .var span kind declarators => exact bindingWrites_subset declarators
  | .function span name fn =>
      exact append_subset_append (List.Subset.refl _) (functionWrites_subset fn)
  | .block span body => exact stmtWritesAll_subset body
  | .expr span value terminated => exact exprWrites_subset value
  | .ret span value => exact exprWrites_subset value
  | .throw span value => exact exprWrites_subset value
  | .cond span test consequent alternate =>
      exact append_subset_append
        (append_subset_append (exprWrites_subset test) (stmtWrites_subset consequent))
        (stmtWrites_subset alternate)
  | .while span test body =>
      exact append_subset_append (exprWrites_subset test) (stmtWrites_subset body)
  | .doWhile span body test =>
      exact append_subset_append (stmtWrites_subset body) (exprWrites_subset test)
  | .loop span init test update body =>
      exact append_subset_append (append_subset_append
        (append_subset_append (stmtWrites_subset init) (exprWrites_subset test))
        (exprWrites_subset update)) (stmtWrites_subset body)
  | .each span isOf head iterable body =>
      exact append_subset_append (append_subset_append
        (List.append_subset.mpr ⟨headNames_subset head, stmtWrites_subset head⟩)
        (exprWrites_subset iterable)) (stmtWrites_subset body)
  | .guarded span body handler cleanup =>
      exact append_subset_append
        (append_subset_append (stmtWrites_subset body) (handlerWrites_subset handler))
        (stmtWrites_subset cleanup)
  | .switch span value cases =>
      exact append_subset_append (exprWrites_subset value) (caseWrites_subset cases)

theorem stmtWritesAll_subset (stmts : List Stmt) : stmtWritesAll stmts ⊆ stmtNamesAll stmts := by
  match stmts with
  | [] => exact List.nil_subset _
  | stmt :: more => exact append_subset_append (stmtWrites_subset stmt) (stmtWritesAll_subset more)

theorem handlerWrites_subset (handler : Handler) :
    handlerWrites handler ⊆ handlerNames handler := by
  match handler with
  | .hole => exact List.nil_subset _
  | .clause parameter body =>
      exact append_subset_append
        (List.append_subset.mpr ⟨names_subset parameter, patternWrites_subset parameter⟩)
        (stmtWritesAll_subset body)

theorem caseWrites_subset (cases : List Case) : caseWrites cases ⊆ caseNames cases := by
  match cases with
  | [] => exact List.nil_subset _
  | .mk isDefault test body :: more =>
      exact append_subset_append
        (append_subset_append (exprWrites_subset test) (stmtWritesAll_subset body))
        (caseWrites_subset more)

end

end ShellAwait.Script
