import ShellAwait.Analysis.Findings

/-! # Failures in words

A code that does not change, a message, a label for the place, and a line of help.
-/

namespace ShellAwait.Failure

open Text

def code : Failure → String
  | .broken _ => "P0001"
  | .refused _ => "ASYNC-10001"

def message : Failure → String
  | .broken fault => fault.problem.message
  | .refused refusal => "destructuring a `" ++ refusal.shape ++ "` value is not supported"

def span : Failure → Span
  | .broken fault => fault.span
  | .refused refusal => refusal.span

def label : Failure → String
  | .broken fault => fault.problem.message
  | .refused refusal => "this reads from a `" ++ refusal.shape ++ "`"

def help : Failure → String
  | .broken _ => "the script must parse before it can be rewritten"
  | .refused _ => "bind the value to a name and read its members one by one"

def places : Failure → List (Span × String)
  | .broken fault =>
      (fault.span, fault.problem.message) ::
        (fault.opener.map fun span => (span, fault.problem.openerMessage)).toList
  | .refused refusal => [(refusal.span, label (.refused refusal))]

end ShellAwait.Failure
