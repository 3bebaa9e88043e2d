import Npl.Program.Body
import Npl.Program.Check
import Npl.Proofs.Syntax.Relocation

/-!
# Programs at other places

What a tree declares and what a body does are matters of kinds and texts of tokens. If the tokens
stand at other places, the same names are declared, used and called, by the tokens at the other
places.

## Main results

* `Tree.structs_relocate`, `Tree.functions_relocate` — the declarations of a tree.
* `TypeRef.levels_relocate` — the types that are named in types.
* `Body.freeCalls_relocate`, `Body.unusedVariables_relocate`, `Body.callee?_relocate` — what is read
  off a body.
-/

namespace Npl

open Text (Position)

variable (g : Position → Position)

/-! ### Names and types -/

namespace QualifiedName

variable (q : QualifiedName)

@[simp] theorem parts_relocate : (q.relocate g).parts = q.parts := by
  simp [parts, relocate, Token.relocate]

@[simp] theorem text_relocate : (q.relocate g).text = q.text := by
  rw [text, parts_relocate, text]

@[simp] theorem package_relocate : (q.relocate g).package = q.package := by
  rw [package, parts_relocate, package]

@[simp] theorem simpleName_relocate : (q.relocate g).simpleName = q.simpleName := by
  simp only [simpleName, parts_relocate]

end QualifiedName

namespace TypeRef

variable (r : TypeRef)

@[simp] theorem token_relocate : (r.relocate g).token = r.token.relocate g := by
  cases r
  rw [relocate]
  rfl

@[simp] theorem name_relocate : (r.relocate g).name = r.name := by
  rw [name, token_relocate]
  rfl

@[simp] theorem arguments_relocate : (r.relocate g).arguments = r.arguments.map (relocate g) := by
  cases r
  rw [relocate]
  rfl

/-- The types that are named in types, at other places. -/
theorem levels_relocate (refs : List TypeRef) :
    levels (refs.map (relocate g)) = (levels refs).map (relocate g) := by
  fun_induction levels refs with
  | case1 => simp [levels]
  | case2 r refs ih =>
      have harguments : ((r :: refs).map (relocate g)).flatMap arguments =
          ((r :: refs).flatMap arguments).map (relocate g) := by
        rw [List.flatMap_map, List.map_flatMap]
        simp only [arguments_relocate]
      rw [List.map_cons, levels, ← List.map_cons, harguments, ih, List.map_append]

end TypeRef

/-! ### Declarations -/

namespace Tree

variable (t : Tree)

@[simp] theorem packageParts_relocate : (t.relocate g).packageParts = t.packageParts := by
  obtain ⟨_ | q, uses, declarations⟩ := t
  · rfl
  · exact q.parts_relocate g

@[simp] theorem packageName_relocate : (t.relocate g).packageName = t.packageName := by
  rw [packageName, packageParts_relocate, packageName]

/-- The structures of a tree, at other places. -/
theorem structs_relocate : (t.relocate g).structs = t.structs.map (StructDecl.relocate g) := by
  rw [structs, relocate, structs, List.filterMap_map, List.map_filterMap]
  congr 1
  funext d
  cases d <;> rfl

/-- The functions of a tree, at other places. -/
theorem functions_relocate :
    (t.relocate g).functions = t.functions.map (FunctionDecl.relocate g) := by
  rw [functions, relocate, functions, List.filterMap_map, List.map_filterMap]
  congr 1
  funext d
  cases d <;> rfl

end Tree

/-- What a use clause refers to, wherever its tokens are. -/
theorem UseClause.resolve?_relocate (c : UseClause) (s : Scope) :
    (c.relocate g).resolve? s = c.resolve? s := by
  simp only [resolve?, relocate, QualifiedName.package_relocate, QualifiedName.simpleName_relocate]

/-! ### Bodies -/

namespace Body

theorem freeCallsFrom_relocate (member : Bool) (body : List Token) :
    freeCallsFrom member (body.map (Token.relocate g)) =
      (freeCallsFrom member body).map (Token.relocate g) := by
  induction body generalizing member with
  | nil => rfl
  | cons t ts ih =>
      cases ts with
      | nil => rfl
      | cons u ts =>
          have hothers : freeCallsFrom ((t.relocate g).isSymbol ".")
              (u.relocate g :: ts.map (Token.relocate g)) =
              (freeCallsFrom (t.isSymbol ".") (u :: ts)).map (Token.relocate g) :=
            ih (t.isSymbol ".")
          have hcall : ((t.relocate g).isIdentifier && (u.relocate g).isSymbol "(" && !member) =
              (t.isIdentifier && u.isSymbol "(" && !member) := rfl
          simp only [List.map_cons, freeCallsFrom, hothers, hcall]
          split <;> rfl

/-- The calls of a body, at other places. -/
theorem freeCalls_relocate (body : List Token) :
    freeCalls (body.map (Token.relocate g)) = (freeCalls body).map (Token.relocate g) :=
  freeCallsFrom_relocate g false body

theorem lambdaParams_relocate (ts : List Token) :
    lambdaParams (ts.map (Token.relocate g)) = lambdaParams ts := by
  induction ts with
  | nil => rfl
  | cons t ts ih =>
      cases ts with
      | nil => rfl
      | cons u ts =>
          have hothers : lambdaParams (u.relocate g :: ts.map (Token.relocate g)) =
              lambdaParams (u :: ts) := ih
          have hclose : (t.relocate g).isSymbol ")" = t.isSymbol ")" := rfl
          have hparam : ((t.relocate g).isIdentifier && (u.relocate g).isSymbol ":") =
              (t.isIdentifier && u.isSymbol ":") := rfl
          simp only [List.map_cons, lambdaParams, hothers, hclose, hparam]
          rfl

theorem declaredNames_relocate (body : List Token) :
    declaredNames (body.map (Token.relocate g)) = declaredNames body := by
  induction body with
  | nil => rfl
  | cons t ts ih =>
      cases ts with
      | nil => rfl
      | cons u ts =>
          have hothers : declaredNames (u.relocate g :: ts.map (Token.relocate g)) =
              declaredNames (u :: ts) := ih
          have hvariable : ((t.relocate g).isKeyword "var" && (u.relocate g).isIdentifier) =
              (t.isKeyword "var" && u.isIdentifier) := rfl
          have hinner : ((t.relocate g).isKeyword "function" && (u.relocate g).isSymbol "(") =
              (t.isKeyword "function" && u.isSymbol "(") := rfl
          simp only [List.map_cons, declaredNames, hothers, hvariable, hinner,
            lambdaParams_relocate]
          rfl

theorem returns_relocate (body : List Token) :
    returns (body.map (Token.relocate g)) = returns body := by
  rw [returns, List.any_map]
  rfl

theorem mentionsFrom_relocate (member : Bool) (name : String) (body : List Token) :
    mentionsFrom member name (body.map (Token.relocate g)) = mentionsFrom member name body := by
  induction body generalizing member with
  | nil => rfl
  | cons t ts ih =>
      have hmention : ((t.relocate g).isIdentifier && (t.relocate g).text = name && !member) =
          (t.isIdentifier && t.text = name && !member) := rfl
      simp only [List.map_cons, mentionsFrom, ih, hmention]
      rfl

theorem semicolon?_relocate (depth : Int) (body : List Token) :
    semicolon? depth (body.map (Token.relocate g)) =
      (semicolon? depth body).map (Token.relocate g) := by
  induction body generalizing depth with
  | nil => rfl
  | cons t ts ih =>
      have hopener : (t.relocate g).isOpener = t.isOpener := rfl
      have hcloser : (t.relocate g).isCloser = t.isCloser := rfl
      have hsemicolon : (t.relocate g).isSymbol ";" = t.isSymbol ";" := rfl
      simp only [List.map_cons, semicolon?, ih, hopener, hcloser, hsemicolon]
      split
      · rfl
      · split
        · rfl
        · split <;> rfl

/-- The variable with its tokens at other places. -/
def Variable.relocate (v : Variable) : Variable :=
  ⟨v.keyword.relocate g, v.name.relocate g, v.stop.relocate g⟩

theorem declared_relocate (body : List Token) :
    declared (body.map (Token.relocate g)) = (declared body).map (Variable.relocate g) := by
  induction body with
  | nil => rfl
  | cons t ts ih =>
      cases ts with
      | nil => rfl
      | cons u ts =>
          have hothers : declared (u.relocate g :: ts.map (Token.relocate g)) =
              (declared (u :: ts)).map (Variable.relocate g) := ih
          have hvariable : ((t.relocate g).isKeyword "var" && (u.relocate g).isIdentifier) =
              (t.isKeyword "var" && u.isIdentifier) := rfl
          have hsemicolon :
              semicolon? 0 (t.relocate g :: u.relocate g :: ts.map (Token.relocate g)) =
                (semicolon? 0 (t :: u :: ts)).map (Token.relocate g) :=
            semicolon?_relocate g 0 (t :: u :: ts)
          have hlast : (u.relocate g :: ts.map (Token.relocate g)).getLast (by simp) =
              ((u :: ts).getLast (by simp)).relocate g :=
            List.getLast_map (f := Token.relocate g) (l := u :: ts) (by simp)
          simp only [List.map_cons, declared, hothers, hvariable, hsemicolon, hlast,
            Option.getD_map]
          split <;> rfl

/-- The variables that are not used, at other places. -/
theorem unusedVariables_relocate (body : List Token) :
    unusedVariables (body.map (Token.relocate g)) =
      (unusedVariables body).map (Variable.relocate g) := by
  simp only [unusedVariables, declared_relocate, List.filter_map, mentions, mentionsFrom_relocate]
  rfl

theorem afterClosing?_relocate (opened : Nat) (ts : List Token) :
    afterClosing? opened (ts.map (Token.relocate g)) =
      (afterClosing? opened ts).map (List.map (Token.relocate g)) := by
  induction ts generalizing opened with
  | nil => rfl
  | cons t ts ih =>
      have hopen : (t.relocate g).isSymbol "(" = t.isSymbol "(" := rfl
      have hclose : (t.relocate g).isSymbol ")" = t.isSymbol ")" := rfl
      simp only [List.map_cons, afterClosing?, ih, hopen, hclose]
      split
      · rfl
      · split
        · split <;> rfl
        · rfl

/-- The function that a body calls, wherever its tokens are. -/
theorem callee?_relocate (body : List Token) :
    callee? (body.map (Token.relocate g)) = callee? body := by
  match body with
  | [] => rfl
  | [t] => rfl
  | f :: bracket :: ts =>
      have hcall : ((f.relocate g).isIdentifier && (bracket.relocate g).isSymbol "(") =
          (f.isIdentifier && bracket.isSymbol "(") := rfl
      have hclosed : (afterClosing? 1 ts).map (List.map (Token.relocate g)) = some [] ↔
          afterClosing? 1 ts = some [] := by
        cases afterClosing? 1 ts <;> simp
      simp only [List.map_cons, callee?, afterClosing?_relocate, hcall, hclosed]
      rfl

end Body

end Npl
