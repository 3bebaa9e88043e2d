import Mathlib.Data.Set.Lattice
import Npl.Proofs.Syntax.Turns

/-!
# Reading with plain loops

Readers cannot but end: a repetition is cut short by a turn that takes nothing, a type has no more
arguments than there are tokens, and a run of tokens ends with the file. A parser with plain loops
has none of these safeguards. It goes round a loop until a turn says that it was the last one, and
if none ever does, nothing comes of reading the file.

This module has the parser in that form. Everything that is no loop is done by the readers. What
comes of a loop is what finitely many turns give, so the ends that reading may come to are a set: it
has one member where reading ends, and it is empty where a loop goes round for ever.

## Main definitions

* `Cursor`, `Course` — how far reading has got, and the ends that reading may come to.
* `Course.loop` — a loop with nothing to make it end but its turns.
* `Course.TypeEnds` — the types, which are read by recursion.
* `Course.parse` — a whole text, read with plain loops.

## Main results

* `Course.loop_eq` — a loop is a turn, and the loop again if the turn asks for it.
* `Course.loop_eq_empty` — a loop does not end whose turns always ask for another one.
* `Course.typeRef_eq_do`, `Course.typeArguments_eq_loop` — types are read by recursion and a loop.
-/

namespace Npl

/-- How far reading has got: the tokens left, and the complaints so far. -/
structure Cursor where
  rest : List Token
  complaints : List Complaint
deriving Repr

/-- The cursor behind a reading. -/
def Cursor.behind {α : Type} (c : Cursor) (r : Reading α) : Cursor :=
  ⟨r.rest, c.complaints ++ r.complaints⟩

/-- Reading that moves a cursor on: the values it may come to an end with, and the cursors behind
them. -/
def Course (α : Type) : Type :=
  Cursor → Set (α × Cursor)

namespace Course

open Reader (peek next skip skipIf complain name symbol dotPart mark typeHead fieldsEnd nest)

variable {α β σ : Type}

instance : Monad Course where
  pure a := fun c => {(a, c)}
  bind d f := fun c => ⋃ r ∈ d c, f r.1 r.2

/-- What a reader does, which always ends. -/
def does (p : Reader α) : Course α := fun c =>
  {((p c.rest).value, c.behind (p c.rest))}

/-! ### One after the other -/

section

variable {d : Course α} {f : α → Course β} {c c' : Cursor}

theorem mem_bind_iff {r : β × Cursor} :
    r ∈ (d >>= f) c ↔ ∃ a c', (a, c') ∈ d c ∧ r ∈ f a c' := by
  change r ∈ ⋃ r ∈ d c, f r.1 r.2 ↔ _
  simp

/-- Where the first one ends, the second one starts. -/
theorem bind_of_ends {a : α} (h : d c = {(a, c')}) : (d >>= f) c = f a c' := by
  change ⋃ r ∈ d c, f r.1 r.2 = _
  rw [h, Set.biUnion_singleton]

theorem bind_of_empty (h : d c = ∅) : (d >>= f) c = ∅ := by
  change ⋃ r ∈ d c, f r.1 r.2 = _
  rw [h, Set.biUnion_empty]

end

theorem bind_pure_eq (d : Course α) : d >>= Pure.pure = d := by
  funext c
  ext ⟨a, c'⟩
  rw [mem_bind_iff]
  simp [Pure.pure]

/-! ### Loops -/

/-- Going round a loop finitely often, until a turn says that it was the last one. A turn hands what
it has gathered on to the next one. -/
inductive Rounds (turn : σ → Course (σ × Bool)) : σ → Cursor → σ × Cursor → Prop
  | last {s s' : σ} {c c' : Cursor} (hturn : ((s', false), c') ∈ turn s c) :
    Rounds turn s c (s', c')
  | next {s s' : σ} {c c' : Cursor} {r : σ × Cursor} (hturn : ((s', true), c') ∈ turn s c)
    (hrounds : Rounds turn s' c' r) : Rounds turn s c r

/-- Repeats `turn` until it says that it was the last one. -/
def loop (turn : σ → Course (σ × Bool)) (s : σ) : Course σ := fun c =>
  {r | Rounds turn s c r}

section

variable {turn : σ → Course (σ × Bool)} {s s' : σ} {c c' : Cursor}

/-- A loop is a turn, and the loop again if the turn asks for it. -/
theorem loop_eq : loop turn s = (do
    let (s', more) ← turn s
    if more then loop turn s' else return s') := by
  funext c
  ext r
  rw [mem_bind_iff]
  constructor
  · rintro (hturn | ⟨hturn, hrounds⟩)
    · exact ⟨_, _, hturn, rfl⟩
    · exact ⟨_, _, hturn, hrounds⟩
  · rintro ⟨⟨s', more⟩, c', hturn, hr⟩
    cases more with
    | true => exact .next hturn hr
    | false =>
        obtain rfl : r = (s', c') := hr
        exact .last hturn

theorem loop_of_next (h : turn s c = {((s', true), c')}) : loop turn s c = loop turn s' c' := by
  rw [loop_eq, bind_of_ends h]
  rfl

theorem loop_of_last (h : turn s c = {((s', false), c')}) : loop turn s c = {(s', c')} := by
  rw [loop_eq, bind_of_ends h]
  rfl

theorem loop_of_empty (h : turn s c = ∅) : loop turn s c = ∅ := by
  rw [loop_eq, bind_of_empty h]

/-- A loop does not end whose turns, wherever it gets to, ask for another one. -/
theorem loop_eq_empty {P : σ → Cursor → Prop}
    (hturn : ∀ s c r c', P s c → (r, c') ∈ turn s c → r.2 = true ∧ P r.1 c') (h : P s c) :
    loop turn s c = ∅ := by
  rw [Set.eq_empty_iff_forall_notMem]
  intro r hrounds
  induction hrounds with
  | last hlast => exact Bool.noConfusion (hturn _ _ _ _ h hlast).1
  | next hnext _ ih => exact ih (hturn _ _ _ _ h hnext).2

end

/-- The turn that gathers an item, if there is one. -/
def gather (turn : Course (Option α × Bool)) (before : List α) : Course (List α × Bool) := do
  let (item?, more) ← turn
  return (before ++ item?.toList, more)

/-- Gathers items turn by turn. -/
def gathered (turn : Course (Option α × Bool)) : Course (List α) :=
  loop (gather turn) []

/-- Passes over a token without the property `p`; the end of the file is not passed over. -/
def passOver (p : Token → Bool) (_ : Unit) : Course (Unit × Bool) := do
  match ← does peek with
  | none => return ((), false)
  | some t =>
    if p t then return ((), false)
    does skip
    return ((), true)

/-- Passes over tokens up to the first one with the property `p`, or all. -/
def passTo (p : Token → Bool) : Course Unit :=
  loop (passOver p) ()

/-- Takes a token of a body, up to the first one with the property `p` that is not nested in
brackets. What is done at the end of the file depends on the brackets that are open there: the loop
ends, or it goes on and finds the end of the file again. -/
def bodyTurn (p : Token → Bool) (goesOn : Nat → Bool) (body : List Token × Nat) :
    Course ((List Token × Nat) × Bool) := do
  match ← does peek with
  | none => return (body, goesOn body.2)
  | some t =>
    if body.2 = 0 ∧ p t then return (body, false)
    does skip
    return ((body.1 ++ [t], nest body.2 t), true)

/-- A turn of the loop over the body of a block. It ends with the file. -/
def blockTurn : List Token × Nat → Course ((List Token × Nat) × Bool) :=
  bodyTurn (·.isSymbol "\x7d") fun _ => false

/-- A turn of the loop over an expression. It ends with the file unless a bracket is open. -/
def expressionTurn : List Token × Nat → Course ((List Token × Nat) × Bool) :=
  bodyTurn (fun t => t.isSymbol ";" || t.opensItem) fun depth => depth ≠ 0

/-- Takes the tokens of a body turn by turn. -/
def body (turn : List Token × Nat → Course ((List Token × Nat) × Bool)) : Course (List Token) := do
  let (tokens, _) ← loop turn ([], 0)
  return tokens

/-! ### Names and types -/

/-- Takes a dotted name. -/
def qualifiedName : Course (Option QualifiedName) := do
  match ← does name with
  | none => return none
  | some first =>
    let more ← gathered (does dotPart)
    let stop := (more.getLast?.map fun (dot, part) => part.getD dot).getD first
    return some ⟨first, more.filterMap Prod.snd, stop⟩

mutual

/-- Reading a type ends: it has no arguments, or the opening angle bracket behind its name is
followed by some. -/
inductive TypeEnds : Cursor → Option TypeRef × Cursor → Prop
  | unnamed {c c' : Cursor} (hhead : (none, c') ∈ does typeHead c) : TypeEnds c (none, c')
  | plain {c c' : Cursor} {token : Token} (hhead : (some (token, none), c') ∈ does typeHead c) :
    TypeEnds c (some (.mk token [] token), c')
  | applied {c c₁ c₂ c₃ : Cursor} {token bracket last : Token} {arguments : List TypeRef}
    {close? : Option Token} (hhead : (some (token, some bracket), c₁) ∈ does typeHead c)
    (harguments : ArgumentsEnd ([], bracket) c₁ ((arguments, last), c₂))
    (hclose : (close?, c₃) ∈ does (symbol ">") c₂) :
    TypeEnds c (some (.mk token arguments (close?.getD last)), c₃)

/-- Reading the arguments of a type ends, behind those that come before and the last token taken:
another one is read behind each comma. -/
inductive ArgumentsEnd : List TypeRef × Token → Cursor → (List TypeRef × Token) × Cursor → Prop
  | last {before : List TypeRef × Token} {c c₁ c₂ : Cursor} {type? : Option TypeRef}
    (htype : TypeEnds c (type?, c₁)) (hmark : (none, c₂) ∈ does (mark ",") c₁) :
    ArgumentsEnd before c
      ((before.1 ++ type?.toList, (type?.map TypeRef.stop).getD before.2), c₂)
  | next {before : List TypeRef × Token} {c c₁ c₂ : Cursor} {type? : Option TypeRef}
    {comma : Token} {r : (List TypeRef × Token) × Cursor} (htype : TypeEnds c (type?, c₁))
    (hmark : (some comma, c₂) ∈ does (mark ",") c₁)
    (hmore : ArgumentsEnd (before.1 ++ type?.toList, comma) c₂ r) : ArgumentsEnd before c r

end

/-- Takes a type, with its arguments if an opening angle bracket follows the name. -/
def typeRef : Course (Option TypeRef) := fun c =>
  {r | TypeEnds c r}

/-- Takes types with commas between them. Handed on are the arguments so far, and the last token
taken. -/
def typeArguments (before : List TypeRef × Token) : Course (List TypeRef × Token) := fun c =>
  {r | ArgumentsEnd before c r}

/-- A turn of the loop over the arguments of a type: one of them, and the comma behind it. -/
def argumentTurn (before : List TypeRef × Token) : Course ((List TypeRef × Token) × Bool) := do
  let type? ← typeRef
  match ← does (mark ",") with
  | some comma => return ((before.1 ++ type?.toList, comma), true)
  | none => return ((before.1 ++ type?.toList, (type?.map TypeRef.stop).getD before.2), false)

/-- A type is its name, and what the loop over its arguments gives. -/
theorem typeRef_eq_do : typeRef = (do
    match ← does typeHead with
    | none => return none
    | some (token, none) => return some (.mk token [] token)
    | some (token, some bracket) =>
      let (arguments, last) ← typeArguments ([], bracket)
      let close? ← does (symbol ">")
      return some (.mk token arguments (close?.getD last))) := by
  funext c
  ext r
  rw [mem_bind_iff]
  constructor
  · rintro (hhead | hhead | ⟨hhead, harguments, hclose⟩)
    · exact ⟨_, _, hhead, rfl⟩
    · exact ⟨_, _, hhead, rfl⟩
    · exact ⟨_, _, hhead, mem_bind_iff.2 ⟨_, _, harguments, mem_bind_iff.2 ⟨_, _, hclose, rfl⟩⟩⟩
  · rintro ⟨_ | ⟨token, _ | bracket⟩, c₁, hhead, hr⟩
    · obtain rfl : r = (none, c₁) := hr
      exact .unnamed hhead
    · obtain rfl : r = (some (.mk token [] token), c₁) := hr
      exact .plain hhead
    · obtain ⟨⟨arguments, last⟩, c₂, harguments, hr⟩ := mem_bind_iff.1 hr
      obtain ⟨close?, c₃, hclose, hr⟩ := mem_bind_iff.1 hr
      obtain rfl : r = (some (.mk token arguments (close?.getD last)), c₃) := hr
      exact .applied hhead harguments hclose

/-- Another argument is read behind a comma. -/
theorem typeArguments_eq_do (before : List TypeRef × Token) : typeArguments before = (do
    let type? ← typeRef
    match ← does (mark ",") with
    | some comma => typeArguments (before.1 ++ type?.toList, comma)
    | none => return (before.1 ++ type?.toList, (type?.map TypeRef.stop).getD before.2)) := by
  funext c
  ext r
  rw [mem_bind_iff]
  constructor
  · rintro (⟨htype, hmark⟩ | ⟨htype, hmark, hmore⟩)
    · exact ⟨_, _, htype, mem_bind_iff.2 ⟨_, _, hmark, rfl⟩⟩
    · exact ⟨_, _, htype, mem_bind_iff.2 ⟨_, _, hmark, hmore⟩⟩
  · rintro ⟨type?, c₁, htype, hr⟩
    obtain ⟨_ | comma, c₂, hmark, hr⟩ := mem_bind_iff.1 hr
    · cases hr
      exact .last htype hmark
    · exact .next htype hmark hr

theorem rounds_of_argumentsEnd {before : List TypeRef × Token} {c : Cursor}
    {r : (List TypeRef × Token) × Cursor} :
    ArgumentsEnd before c r → Rounds argumentTurn before c r
  | .last htype hmark => .last (mem_bind_iff.2 ⟨_, _, htype, mem_bind_iff.2 ⟨_, _, hmark, rfl⟩⟩)
  | .next htype hmark hmore =>
      .next (mem_bind_iff.2 ⟨_, _, htype, mem_bind_iff.2 ⟨_, _, hmark, rfl⟩⟩)
        (rounds_of_argumentsEnd hmore)

/-- The arguments of a type are read in a loop. -/
theorem typeArguments_eq_loop : typeArguments = loop argumentTurn := by
  funext before c
  ext r
  refine ⟨rounds_of_argumentsEnd, fun hrounds => ?_⟩
  -- A turn has found a comma exactly if it asks for another one.
  induction hrounds with
  | last hturn =>
      obtain ⟨type?, c₁, htype, hturn⟩ := mem_bind_iff.1 hturn
      obtain ⟨_ | comma, c₂, hmark, hturn⟩ := mem_bind_iff.1 hturn
      · cases hturn
        exact .last htype hmark
      · cases hturn
  | next hturn _ ih =>
      obtain ⟨type?, c₁, htype, hturn⟩ := mem_bind_iff.1 hturn
      obtain ⟨_ | comma, c₂, hmark, hturn⟩ := mem_bind_iff.1 hturn
      · cases hturn
      · cases hturn
        exact .next htype hmark ih

/-- Takes the colon and type behind the name of a field or parameter. -/
def annotation : Course (Option TypeRef) := do
  match ← does (symbol ":") with
  | some _ => typeRef
  | none => return none

/-- Takes the name and the type of a field or parameter. -/
def binding : Course (Option Binding) := do
  match ← does name with
  | none => return none
  | some token => return some ⟨token, ← annotation⟩

/-! ### Structures -/

/-- Takes one field and the comma behind it, and tells whether more may follow. -/
def field : Course (Option Binding × Bool) := do
  if ← does fieldsEnd then return (none, false)
  let binding? ← binding
  if ← does (skipIf (·.isSymbol ",")) then return (binding?, true)
  if ← does fieldsEnd then return (binding?, false)
  if binding?.isSome then does (complain (.mismatched .fieldEnd))
  passTo fun t => t.isSymbol "," || t.isSymbol "\x7d" || t.opensItem
  let _ ← does (skipIf (·.isSymbol ","))
  return (binding?, true)

/-- Gives a declaration up: passes over everything before the next top-level item. -/
def giveUp : Course (Option α) := do
  passTo Token.opensItem
  return none

/-- Takes a structure behind its keyword. -/
def struct (keyword : Token) : Course (Option StructDecl) := do
  match ← does name with
  | none => giveUp
  | some nameToken =>
    match ← does (symbol "\x7b") with
    | none => giveUp
    | some _ =>
      let fields ← gathered field
      let _ ← does (symbol "\x7d")
      let _ ← does (skipIf (·.isSymbol ";"))
      return some ⟨keyword, nameToken, fields⟩

/-! ### Functions -/

/-- Takes one parameter and the comma behind it, and tells whether another one follows. -/
def param : Course (Option Binding × Bool) := do
  match ← binding with
  | none => return (none, false)
  | some b => return (some b, ← does (skipIf (·.isSymbol ",")))

/-- Takes the parameters of a function up to its closing parenthesis. -/
def params : Course (List Binding) := do
  if ← does (next (·.isSymbol ")")) then return []
  gathered param

/-- Takes a block behind its opening brace. -/
def block : Course (Option (List Token × Token)) := do
  let tokens ← body blockTurn
  match ← does peek with
  | some close =>
    does skip
    return some (tokens, close)
  | none =>
    does (complain (.missing "\x7d"))
    return none

/-- Takes an expression and the semicolon behind it. -/
def expression : Course (Option (List Token × Token)) := do
  let tokens ← body expressionTurn
  match tokens.getLast? with
  | none =>
    does (complain (.mismatched .expression))
    let _ ← does (skipIf (·.isSymbol ";"))
    return none
  | some last =>
    match ← does peek with
    | some stop =>
      if stop.isSymbol ";" then
        does skip
        return some (tokens, stop)
      does (complain (.missing ";"))
      return some (tokens, last)
    | none =>
      does (complain (.missing ";"))
      return some (tokens, last)

/-- Takes the body of a function behind its arrow. -/
def functionBody : Course (Bool × Option (List Token × Token)) := do
  if ← does (skipIf (·.isSymbol "\x7b")) then
    let tokens ← block
    let _ ← does (skipIf (·.isSymbol ";"))
    return (true, tokens)
  return (false, ← expression)

/-- Takes the type behind the keyword that announces it, if the keyword is there. -/
def returnType : Course (Option TypeRef) := do
  if ← does (skipIf (·.isKeyword "returns")) then typeRef else return none

/-- Takes a function behind its keyword. -/
def function (keyword : Token) : Course (Option FunctionDecl) := do
  match ← does name with
  | none => giveUp
  | some nameToken =>
    match ← does (symbol "(") with
    | none => giveUp
    | some _ =>
      let params ← params
      match ← does (symbol ")") with
      | none => giveUp
      | some _ =>
        let returns? ← returnType
        match ← does (symbol "->") with
        | none => giveUp
        | some _ =>
          match ← functionBody with
          | (_, none) => return none
          | (block, some (body, stop)) =>
            return some ⟨keyword, nameToken, params, returns?, block, body, stop⟩

/-! ### Files -/

/-- Takes a use clause behind its keyword. -/
def useClause (keyword : Token) : Course (Option UseClause) := do
  match ← qualifiedName with
  | none => giveUp
  | some name =>
    let _ ← does (skipIf (·.isSymbol ";"))
    return some ⟨keyword, name⟩

/-- Takes the package clause. -/
def packageClause : Course (Option QualifiedName) := do
  if ← does (skipIf (·.isKeyword "package")) then
    let name ← qualifiedName
    let _ ← does (skipIf (·.isSymbol ";"))
    return name
  does (complain (.missing "package"))
  return none

/-- Takes one top-level item, and tells whether the file goes on. -/
def item : Course (Option (UseClause ⊕ Declaration) × Bool) := do
  match ← does peek with
  | none => return (none, false)
  | some t =>
    if t.isKeyword "use" then
      does skip
      return ((← useClause t).map .inl, true)
    if t.isKeyword "struct" then
      does skip
      return ((← struct t).map fun d => .inr (.struct d), true)
    if t.isKeyword "function" then
      does skip
      return ((← function t).map fun d => .inr (.function d), true)
    does (complain (.extraneous .item))
    does skip
    passTo Token.opensItem
    return (none, true)

/-- Takes a whole file. -/
def tree : Course Tree := do
  let package? ← packageClause
  let items ← gathered item
  return ⟨package?, items.filterMap Sum.getLeft?, items.filterMap Sum.getRight?⟩

/-- What comes of reading the text: its tree with the errors, and the tokens that were not read. -/
def parse (text : String) : Set ((Tree × List SyntaxError) × List Token) :=
  let file := TokenList.ofText text
  (fun (tree, cursor) => ((tree, strayErrors text ++ cursor.complaints.map
    (Complaint.toError file.stop)), cursor.rest)) '' tree ⟨file.tokens, []⟩

end Course

end Npl
