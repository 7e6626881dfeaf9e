import IngressWatch.Dict
import IngressWatch.Error
import IngressWatch.Text.Blank

/-!
# Label selectors

A selector asks for labels with given values. It is written as `key=value` terms joined by commas,
so neither part of a term may hold a separator.

* `Selector.ofTerms`: the selector of a map, or the first term that can not be written.
* `Selector.accepts`: whether labels have every pair.
* `Selector.display`: the written form, in the order of the keys.
-/

namespace IngressWatch

structure Selector where
  terms : Dict String
deriving DecidableEq

namespace Selector

def empty : Selector := ⟨Dict.empty⟩

/-- A character that may stand in a term. -/
def isPlainChar (c : Char) : Bool := !(c ∈ [',', '=', '!', '(', ')'] || Text.isBlank c)

def isPlain (text : String) : Bool := text.toList.all isPlainChar

/-- Keys must not be empty; values may be. -/
def isTerm (key value : String) : Bool := key ≠ "" && isPlain key && isPlain value

def ofTerms (terms : Dict String) : Except Malformed Selector :=
  match terms.entries.find? fun e => !isTerm e.1 e.2 with
  | some (key, value) => .error (.selectorTerm key value)
  | none => .ok ⟨terms⟩

def isEmpty (s : Selector) : Bool := s.terms.isEmpty

/-- Whether `labels` hold every term; missing labels hold none. -/
def accepts (s : Selector) (labels : Option (Dict String)) : Bool :=
  s.terms.entries.all fun e => (labels.getD Dict.empty).get? e.1 = some e.2

def termText (e : String × String) : List Char := e.1.toList ++ '=' :: e.2.toList

def display (s : Selector) : String :=
  String.ofList ([','].intercalate (s.terms.entries.map termText))

end Selector

end IngressWatch
