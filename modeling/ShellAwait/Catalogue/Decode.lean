import ShellAwait.Format.Value
import ShellAwait.Catalogue.Config

/-! # Configurations from values

A record is a table of its fields or a list of them in their order. Every field may be left out; none may
be given twice, and no other may be given. A record of named entries keeps a repeated name in its first
place with its last value.
-/

namespace ShellAwait.Config

open Format

def fields (names : List String) : Value → Option (List (Option Value))
  | .table entries =>
      let keys := entries.map Prod.fst
      if keys.all names.contains && keys.eraseDups.length = keys.length then
        some (names.map fun name => (entries.find? (·.1 == name)).map Prod.snd)
      else none
  | .list items =>
      if items.length ≤ names.length then
        some (items.map some ++ List.replicate (names.length - items.length) none)
      else none
  | _ => none

def orDefault {α : Type} (default : α) (decode : Value → Option α) : Option Value → Option α
  | none => some default
  | some value => decode value

def named {α : Type} (decode : Value → Option α) : Value → Option (Dictionary α)
  | .table entries => do
      let decoded ← entries.mapM fun (name, value) => (decode value).map fun a => (name, a)
      return Dictionary.ofEntries decoded
  | _ => none

def bool : Value → Option Bool
  | .bool value => some value
  | _ => none

/-- A name, where null stands for none. -/
def name : Value → Option (Option String)
  | .string text => some (some text)
  | .null => some none
  | _ => none

/-- A kind by its word, or by its word with an empty value in a table of its own. -/
def kind (isEmpty : Value → Bool) : Value → Option MemberKind
  | .string word => ofWord word
  | .table [(word, value)] => if isEmpty value then ofWord word else none
  | _ => none
where
  ofWord (word : String) : Option MemberKind :=
    if word = "method" then some .method
    else if word = "property" then some .property
    else none

def member (isEmpty : Value → Bool) (value : Value) : Option MemberEntry := do
  match ← fields ["kind", "deferred", "returns"] value with
  | [kindField, deferredField, returnsField] =>
      return {
        kind := ← orDefault .method (kind isEmpty) kindField
        deferred := ← orDefault false bool deferredField
        returns := ← orDefault none name returnsField }
  | _ => none

def shape (isEmpty : Value → Bool) (value : Value) : Option ShapeEntry := do
  match ← fields ["any_member", "members"] value with
  | [anyMemberField, membersField] =>
      return {
        anyMember := ← orDefault none name anyMemberField
        members := ← orDefault .empty (named (member isEmpty)) membersField }
  | _ => none

def ofValue (isEmpty : Value → Bool) (value : Value) : Option Config := do
  match ← fields ["globals", "shapes"] value with
  | [globalsField, shapesField] =>
      return {
        globals := ← orDefault .empty (named (member isEmpty)) globalsField
        shapes := ← orDefault .empty (named (shape isEmpty)) shapesField }
  | _ => none

end ShellAwait.Config
