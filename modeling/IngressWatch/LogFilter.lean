/-!
# Log filters

A log filter is a list of directives separated by commas: a level for everything, or a target and
the level for it.

* `LogFilter.ofText`: the directives of a text, and a complaint for each that can not be read.
* `LogFilter.enables`: whether a line of a level and target is logged. The directive with the
  longest target that starts the line's target decides; of equal ones the last.
-/

namespace IngressWatch

/-- Levels of log lines, from the gravest on. -/
inductive LogLevel where
  | error
  | warn
  | info
  | debug
  | trace
deriving DecidableEq, Repr

namespace LogLevel

def rank : LogLevel → Nat
  | error => 1
  | warn => 2
  | info => 3
  | debug => 4
  | trace => 5

def label : LogLevel → String
  | error => "ERROR"
  | warn => "WARN"
  | info => "INFO"
  | debug => "DEBUG"
  | trace => "TRACE"

end LogLevel

/-- The highest rank that is logged for a target; spans only have a say inside of them. -/
inductive Directive where
  | target (start : List Char) (rank : Nat)
  | span

structure LogFilter where
  directives : List Directive

namespace LogFilter

/-- The rank of a written level: a number or a name in any case. -/
def rank? (s : List Char) : Option Nat :=
  let digits := match s with
    | '+' :: rest => rest
    | _ => s
  if digits ≠ [] ∧ digits.all Char.isDigit then
    let n : Nat := digits.foldl (fun n c => 10 * n + (c.toNat - 48)) 0
    if n ≤ 5 then some n else none
  else
    ["off", "error", "warn", "info", "debug", "trace"].findIdx?
      (· = String.ofList (s.map Char.toLower))

/-- Why a directive was left out. -/
inductive Complaint where
  | directive
  | level
deriving DecidableEq, Repr

def Complaint.text : Complaint → String
  | directive => "invalid filter directive"
  | level => "error parsing level filter: expected one of " ++
    "\"off\", \"error\", \"warn\", \"info\", \"debug\", \"trace\", or a number 0-5"

/-- A level after an equals sign; nothing stands for all levels. -/
def levelAfter (s : List Char) : Except Complaint Nat :=
  if s = [] then .ok 5
  else match rank? s with
    | some n => .ok n
    | none => .error .level

/-- Punctuation, symbols and pictures outside ASCII, as inclusive ranges of code points. -/
def symbolRanges : List (Nat × Nat) :=
  [(0x80, 0xa9), (0xab, 0xb1), (0xb4, 0xb4), (0xb6, 0xb8), (0xbb, 0xbb), (0xbf, 0xbf),
   (0xd7, 0xd7), (0xf7, 0xf7), (0x2000, 0x206f), (0x20a0, 0x20ff), (0x2190, 0x245f),
   (0x2500, 0x2775), (0x2794, 0x2bff), (0x3000, 0x3004), (0xe000, 0xf8ff), (0xfe00, 0xfe6f),
   (0x1f000, 0x1f0ff), (0x1f200, 0x1faff)]

/-- A letter or digit. Outside ASCII this is what is no symbol. -/
def isWordChar (c : Char) : Bool :=
  if c.toNat < 128 then c.isAlphanum
  else !symbolRanges.any fun r => r.1 ≤ c.toNat && c.toNat ≤ r.2

/-- The part after a target: a span in brackets, perhaps with fields in braces, and a level. -/
def spanDirective (s : List Char) : Except Complaint Directive :=
  let afterName := s.dropWhile fun c => c ≠ ']' ∧ c ≠ '{'
  let rest := match afterName with
    | '{' :: fields => (fields.dropWhile (· ≠ '}')).drop 1
    | other => other
  match rest with
  | [']'] => .ok .span
  | ']' :: '=' :: level => (levelAfter level).map fun _ => .span
  | _ => .error .directive

def directive (s : List Char) : Except Complaint Directive :=
  match s with
  | '[' :: span => spanDirective span
  | c :: _ =>
    if !(isWordChar c || c ∈ ['-', ':', '_']) then .error .directive
    else
      let target := s.takeWhile fun c => c ≠ '=' ∧ c ≠ '['
      match s.drop target.length with
      | '=' :: level => (levelAfter level).map (.target target)
      | '[' :: span => spanDirective span
      | _ =>
        match rank? s with
        | some n => .ok (.target [] n)
        | none => .ok (.target s 5)
  | [] => .error .directive

/-- The pieces of a text between commas, without empty ones. -/
def pieces (s : List Char) : List (List Char) :=
  (s.foldr (fun c done => if c = ',' then [] :: done else
    match done with
    | [] => [[c]]
    | piece :: done => (c :: piece) :: done) [[]]).filter (· ≠ [])

/-- The filter of a text, and the pieces that were left out. Without any directive only errors are
logged. -/
def ofText (text : String) : LogFilter × List (String × Complaint) :=
  let read := (pieces text.toList).map fun piece => (piece, directive piece)
  let directives := read.filterMap fun r => r.2.toOption
  let left := read.filterMap fun r =>
    match r.2 with
    | .error complaint => some (String.ofList r.1, complaint)
    | .ok _ => none
  (⟨if directives.isEmpty then [.target [] LogLevel.error.rank] else directives⟩, left)

/-- The rank that `target` is logged up to. -/
def limit (filter : LogFilter) (target : String) : Nat :=
  (filter.directives.foldl (fun best d =>
    match d with
    | .span => best
    | .target start rank =>
      if start.isPrefixOf target.toList ∧ best.all (fun b => b.1 ≤ start.length) then
        some (start.length, rank)
      else best) (none : Option (Nat × Nat))).elim 0 (·.2)

def enables (filter : LogFilter) (level : LogLevel) (target : String) : Bool :=
  level.rank ≤ filter.limit target

end LogFilter

end IngressWatch
