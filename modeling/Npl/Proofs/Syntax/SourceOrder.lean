import Mathlib.Data.List.Nodup
import Npl.Proofs.Syntax.Stretch
import Npl.Proofs.Syntax.Tiling

/-!
# Trees in source order

However badly a file is written, its tree follows it. Each rule of the grammar makes its part of the
tree of the stretch of tokens that it takes: it may pass tokens over, but it keeps their order. So
the tokens of a tree, written down part by part, are some of the tokens of the file in their order,
and the complaints come in that order too.

A last token is no token of its own where it is the last one of the parts before it, as it is in a
type without arguments or a function that its body ends.

## Main definitions

* `TypeRef.tokens`, …, `tokensOfItem` — the tokens of a part of a tree in order, each of them once.
* `TypeRef.Named`, …, `IsShaped` — names are identifiers, and bodies are runs of tokens.
* `Tree.InSourceOrder` — the tokens of a tree come one behind the other in the file.

## Main results

* `Reader.draws_tree` — reading a file keeps the order of its tokens.
* `Tree.sourceOrder_of_parse` — the tree of a text is in source order, and so are the errors.
-/

namespace Npl

open Text (Position)

/-! ### The tokens of a tree -/

/-- Tokens with a last one behind them, unless it is the last of them already. -/
def closed (ts : List Token) (stop : Token) : List Token :=
  if ts.getLast? = some stop then ts else ts ++ [stop]

/-- The tokens of a dotted name. -/
def QualifiedName.tokens (q : QualifiedName) : List Token :=
  closed (q.first :: q.more) q.stop

/-- The tokens of a type: its name, those of its arguments, and its end. -/
def TypeRef.tokens : TypeRef → List Token
  | mk token arguments stop => closed (token :: (arguments.map tokens).flatten) stop

/-- The tokens of a type that may be absent. -/
def tokensOfType (type? : Option TypeRef) : List Token :=
  type?.toList.flatMap TypeRef.tokens

/-- The tokens of a field or parameter: its name and those of its type. -/
def Binding.tokens (b : Binding) : List Token :=
  b.token :: tokensOfType b.type?

/-- The tokens of a structure: keyword, name and fields. -/
def StructDecl.tokens (d : StructDecl) : List Token :=
  d.keyword :: d.nameToken :: d.fields.flatMap Binding.tokens

/-- The tokens of a function: keyword, name, parameters, return type, body and end. -/
def FunctionDecl.tokens (d : FunctionDecl) : List Token :=
  d.keyword :: d.nameToken ::
    (d.params.flatMap Binding.tokens ++ (tokensOfType d.returns? ++ closed d.body d.stop))

/-- The tokens of a declaration. -/
def Declaration.tokens : Declaration → List Token
  | struct d => d.tokens
  | function d => d.tokens

/-- The tokens of a use clause. -/
def UseClause.tokens (c : UseClause) : List Token :=
  c.keyword :: c.name.tokens

/-- The tokens of a use clause or a declaration. -/
def tokensOfItem : UseClause ⊕ Declaration → List Token
  | .inl c => c.tokens
  | .inr d => d.tokens

/-- The keyword of a use clause or a declaration. -/
def keywordOf : UseClause ⊕ Declaration → Token
  | .inl c => c.keyword
  | .inr (.struct d) => d.keyword
  | .inr (.function d) => d.keyword

/-- The use clauses and declarations of a file, sorted by their keywords. -/
def Tree.items (t : Tree) : List (UseClause ⊕ Declaration) :=
  (t.uses.map Sum.inl ++ t.declarations.map Sum.inr).mergeSort fun i j =>
    (keywordOf i).pos.offset ≤ (keywordOf j).pos.offset

/-- The tokens of a file's tree: those of its package, and then those of its items one by one. -/
def Tree.tokens (t : Tree) : List Token :=
  t.package?.toList.flatMap QualifiedName.tokens ++ t.items.flatMap tokensOfItem

theorem keywordOf_mem (i : UseClause ⊕ Declaration) : keywordOf i ∈ tokensOfItem i := by
  rcases i with c | d | d <;> exact List.mem_cons_self

theorem TypeRef.tokens_mk (token stop : Token) (arguments : List TypeRef) :
    (mk token arguments stop).tokens = closed (token :: arguments.flatMap tokens) stop := by
  rw [tokens, List.flatMap_def]

theorem getLast?_closed (ts : List Token) (stop : Token) :
    (closed ts stop).getLast? = some stop := by
  unfold closed
  split
  · assumption
  · simp

theorem TypeRef.getLast?_tokens (r : TypeRef) : r.tokens.getLast? = some r.stop := by
  cases r
  rw [tokens, getLast?_closed, stop]

/-- A last token is found behind the others, or it is the last of them. -/
theorem closed_sublist {ts us : List Token} {stop : Token} (h : ts.Sublist us)
    (hstop : ts.getLast? = some stop ∨ (ts ++ [stop]).Sublist us) :
    (closed ts stop).Sublist us := by
  unfold closed
  split
  · exact h
  · next hlast => exact hstop.resolve_left hlast

/-! ### Names and bodies -/

/-- All parts of the dotted name are identifiers. -/
structure QualifiedName.Named (q : QualifiedName) : Prop where
  first : q.first.isIdentifier = true
  more : ∀ t ∈ q.more, t.isIdentifier = true

/-- The type is named by an identifier, and so are its arguments. -/
inductive TypeRef.Named : TypeRef → Prop
  | mk {token stop : Token} {arguments : List TypeRef} (htoken : token.isIdentifier = true)
    (harguments : ∀ r ∈ arguments, r.Named) : (TypeRef.mk token arguments stop).Named

/-- The field or parameter is named by an identifier, and so is its type. -/
structure Binding.Named (b : Binding) : Prop where
  token : b.token.isIdentifier = true
  type : ∀ r ∈ b.type?, r.Named

/-- The structure is named by an identifier, and so are its fields. -/
structure StructDecl.Shaped (d : StructDecl) : Prop where
  keyword : d.keyword.isKeyword "struct" = true
  name : d.nameToken.isIdentifier = true
  fields : ∀ b ∈ d.fields, b.Named

/-- The body is a run of tokens of the file, and the last token stands right behind it or is the
last one of it. -/
def IsRun (file body : List Token) (stop : Token) : Prop :=
  ∃ before after, file = before ++ (body ++ after) ∧
    (after.head? = some stop ∨ body.getLast? = some stop)

/-- The function is named by an identifier, and so are its parameters and its types, and its body is
a run of the tokens of the file. -/
structure FunctionDecl.Shaped (file : List Token) (d : FunctionDecl) : Prop where
  keyword : d.keyword.isKeyword "function" = true
  name : d.nameToken.isIdentifier = true
  params : ∀ b ∈ d.params, b.Named
  result : ∀ r ∈ d.returns?, r.Named
  body : IsRun file d.body d.stop

/-- The use clause starts with its keyword, and all parts of its name are identifiers. -/
structure UseClause.Shaped (c : UseClause) : Prop where
  keyword : c.keyword.isKeyword "use" = true
  name : c.name.Named

/-- All names of an item are identifiers, and a body is a run of the tokens of the file. -/
def IsShaped (file : List Token) : UseClause ⊕ Declaration → Prop
  | .inl c => c.Shaped
  | .inr (.struct d) => d.Shaped
  | .inr (.function d) => d.Shaped file

namespace Reader

variable {α β : Type} {file : List Token} {W : List Token → β → Prop}

/-! ### Names and types -/

theorem draws_dotPart : dotPart.Draws file fun taken o =>
    Found (fun pair => pair.1 :: pair.2.toList) (fun pair => ∀ t ∈ pair.2, t.isIdentifier = true)
      taken o.1.toList := by
  refine fun ts hts => draws_peek_bind hts (.pure .nil) fun dot rest hdot => ?_
  subst hdot
  simp only
  split
  · refine draws_skip_bind hts (draws_name.bind fun taken part? hpart => .pure (.single ?_ ?_))
    · rw [List.append_nil]
      refine List.cons_sublist_cons.2 ?_
      cases part? with
      | none => exact List.nil_sublist _
      | some part => exact (hpart part rfl).2
    · exact fun part hsome => (hpart part hsome).1
  · exact ⟨[], rfl, .nil, .nil List.suffix_rfl⟩

/-- The parts of a dotted name are behind the dots. -/
theorem filterMap_snd_sublist (more : List (Token × Option Token)) :
    (more.filterMap Prod.snd).Sublist (more.flatMap fun pair => pair.1 :: pair.2.toList) := by
  induction more with
  | nil => exact List.Sublist.refl _
  | cons pair more ih =>
      obtain ⟨dot, _ | part⟩ := pair
      · exact ih.cons _
      · exact (ih.cons_cons part).cons dot

theorem draws_qualifiedName : qualifiedName.Draws file fun taken q? =>
    Found QualifiedName.tokens QualifiedName.Named taken q?.toList := by
  refine draws_name.bind fun taken first? hfirst => ?_
  cases first? with
  | none => exact .pure .nil
  | some first =>
      obtain ⟨hidentifier, hin⟩ := hfirst first rfl
      refine (draws_items draws_dotPart).bind fun dots more hmore => .pure (.single ?tokens ?named)
      case tokens =>
        rw [List.append_nil]
        refine closed_sublist (hin.append ((filterMap_snd_sublist more).trans hmore.tokens)) ?_
        cases more using List.reverseRecOn with
        | nil => exact .inl rfl
        | append_singleton init pair =>
            obtain ⟨dot, _ | part⟩ := pair
            · refine .inr ?_
              have hdots := hmore.tokens
              rw [List.flatMap_append] at hdots
              have hinit := ((filterMap_snd_sublist init).append_right [dot]).trans hdots
              simpa using hin.append hinit
            · exact .inl (by simp [List.getLast?_cons])
      case named =>
        refine ⟨hidentifier, fun t ht => ?_⟩
        obtain ⟨pair, hpair, hsome⟩ := List.mem_filterMap.1 ht
        exact hmore.each pair hpair t hsome

/-- A type without arguments. -/
theorem found_plain {taken : List Token} {token : Token} (hidentifier : token.isIdentifier = true)
    (hin : [token].Sublist taken) :
    Found TypeRef.tokens TypeRef.Named taken [.mk token [] token] := by
  refine .single ?_ (.mk hidentifier (by simp))
  rw [TypeRef.tokens_mk]
  exact closed_sublist hin (.inl rfl)

/-- The types are found in the tokens, and the last token is the one of the last type, or it comes
behind them; `last` is the token before. -/
def ArgumentsFound (last : Token) (taken : List Token) (arguments : List TypeRef × Token) : Prop :=
  Found TypeRef.tokens TypeRef.Named taken arguments.1 ∧
    ((arguments.1.flatMap TypeRef.tokens).getLast? = some arguments.2 ∨
      (arguments.1.flatMap TypeRef.tokens ++ [arguments.2]).Sublist (last :: taken))

/-- A single type, or none, as the arguments. -/
theorem argumentsFound_single {last : Token} {taken : List Token} {type? : Option TypeRef}
    (h : Found TypeRef.tokens TypeRef.Named taken type?.toList) :
    ArgumentsFound last taken (type?.toList, (type?.map TypeRef.stop).getD last) := by
  refine ⟨h, ?_⟩
  cases type? with
  | none => exact .inr (List.cons_sublist_cons.2 (List.nil_sublist _))
  | some r => exact .inl (by simp [TypeRef.getLast?_tokens])

/-- A type, or none, with a comma and more behind it. -/
theorem ArgumentsFound.cons {last comma : Token} {taken taken' : List Token}
    {type? : Option TypeRef} {others : List TypeRef × Token}
    (h : Found TypeRef.tokens TypeRef.Named taken type?.toList)
    (hothers : ArgumentsFound comma taken' others) :
    ArgumentsFound last (taken ++ comma :: taken') (type?.toList ++ others.1, others.2) := by
  refine ⟨h.append (hothers.1.mono (List.sublist_cons_self _ _)), ?_⟩
  rw [List.flatMap_append, List.append_assoc]
  refine hothers.2.imp (fun hlast => ?_) fun hin => (h.tokens.append hin).cons _
  rw [List.getLast?_append, hlast, Option.some_or]

/-- A type with its arguments between angle brackets. -/
theorem ArgumentsFound.found {token bracket : Token} {close? : Option Token}
    {before inner behind : List Token} {arguments : List TypeRef × Token}
    (hidentifier : token.isIdentifier = true) (hin : [token].Sublist before)
    (harguments : ArgumentsFound bracket inner arguments)
    (hclose : ∀ t ∈ close?, [t].Sublist behind) :
    Found TypeRef.tokens TypeRef.Named (before ++ (bracket :: inner ++ behind))
      [.mk token arguments.1 (close?.getD arguments.2)] := by
  refine .single ?_ (.mk hidentifier harguments.1.each)
  rw [TypeRef.tokens_mk]
  have hinner := harguments.1.tokens.trans (List.sublist_cons_self bracket inner)
  refine closed_sublist (hin.append (hinner.trans (List.sublist_append_left _ _))) ?_
  cases close? with
  | some close =>
      exact .inr (by simpa using hin.append (hinner.append (hclose close rfl)))
  | none =>
      refine harguments.2.imp (fun hlast => ?_) fun hstop => ?_
      · rw [List.getLast?_cons, hlast]
        rfl
      · exact hin.append (hstop.trans (List.sublist_append_left _ _))

mutual

theorem drawn_typeRef (ts : List Token) : (typeRef ts).Draws
    (fun taken r? => Found TypeRef.tokens TypeRef.Named taken r?.toList) ts := by
  obtain ⟨taken, hsplit, hvalue, halong⟩ := draws_name ts List.suffix_rfl
  rw [typeRef]
  split
  · next complaints rest heq =>
      rw [heq] at hsplit halong
      exact ⟨taken, hsplit, .nil, halong⟩
  · next token complaints rest heq =>
      rw [heq] at hsplit hvalue halong
      obtain ⟨hidentifier, hin⟩ := hvalue token rfl
      split
      · next bracket inner heq =>
          split
          · have hlt : inner.length < ts.length := by
              have hshorter := length_expect_lt (congrArg Reading.value heq)
              simp only [show expect _ _ _ ts = name ts from rfl, heq, List.length_cons] at hshorter
              omega
            obtain ⟨inner', hinner, harguments, halong'⟩ := drawn_typeArguments bracket inner
            obtain ⟨behind, hbehind, hclose, halong''⟩ :=
              draws_symbol ">" (typeArguments bracket inner).rest List.suffix_rfl
            refine ⟨taken ++ (bracket :: inner' ++ behind), ?split, ?value, ?along⟩
            case split =>
              exact split_append hsplit (split_append (congrArg (List.cons bracket) hinner) hbehind)
            case value => exact harguments.found hidentifier hin fun t ht => (hclose t ht).2
            case along =>
              have hmid := halong'.of_suffix (List.suffix_cons bracket inner)
              exact (halong.append hmid).append halong''
          · exact ⟨taken, hsplit, found_plain hidentifier hin, halong⟩
      · exact ⟨taken, hsplit, found_plain hidentifier hin, halong⟩
termination_by (ts.length, 0)

theorem drawn_typeArguments (last : Token) (ts : List Token) :
    (typeArguments last ts).Draws (ArgumentsFound last) ts := by
  obtain ⟨taken, hsplit, hfirst, halong⟩ := drawn_typeRef ts
  rw [typeArguments]
  simp only
  split
  · next comma more heq =>
      rw [heq] at hsplit halong
      split
      · next hgo =>
          have hlt : more.length < ts.length := hgo.2
          obtain ⟨taken', hsplit', hothers, halong'⟩ := drawn_typeArguments comma more
          have hmid := halong'.of_suffix (List.suffix_cons comma more)
          exact ⟨taken ++ comma :: taken', split_append hsplit (congrArg (List.cons comma) hsplit'),
            hothers.cons hfirst, halong.append hmid⟩
      · exact ⟨taken, hsplit, argumentsFound_single hfirst, halong⟩
  · next heq =>
      rw [heq] at hsplit halong
      exact ⟨taken, hsplit, argumentsFound_single hfirst, halong⟩
termination_by (ts.length, 1)

end

theorem draws_typeRef : Draws file
    (fun taken r? => Found TypeRef.tokens TypeRef.Named taken r?.toList) typeRef :=
  fun ts _ => drawn_typeRef ts

theorem draws_annotation : annotation.Draws file fun taken r? =>
    Found TypeRef.tokens TypeRef.Named taken r?.toList := by
  refine (draws_symbol ":").bind fun taken colon? _ => ?_
  cases colon? with
  | none => exact .pure .nil
  | some colon =>
      exact draws_typeRef.mono fun _ _ htype => htype.mono (List.sublist_append_right _ _)

theorem draws_binding : binding.Draws file fun taken b? =>
    Found Binding.tokens Binding.Named taken b?.toList := by
  refine draws_name.bind fun taken token? htoken => ?_
  cases token? with
  | none => exact .pure .nil
  | some token =>
      obtain ⟨hidentifier, hin⟩ := htoken token rfl
      refine draws_annotation.bind fun taken' type? htype => .pure (.single ?_ ?_)
      · rw [List.append_nil]
        exact hin.append htype.tokens
      · exact ⟨hidentifier, fun r hr => htype.each r (Option.mem_toList.2 hr)⟩

/-! ### Structures -/

theorem draws_fieldsEnd : fieldsEnd.Draws file fun taken _ => taken = [] :=
  fun _ _ => ⟨[], rfl, rfl, .nil List.suffix_rfl⟩

theorem draws_field : field.Draws file fun taken o =>
    Found Binding.tokens Binding.Named taken o.1.toList := by
  refine draws_fieldsEnd.bind fun _ _ _ => .ite (.pure .nil) ?_
  refine draws_binding.bind fun taken b? hb => ?_
  -- Whatever is skipped from here on, the field is the one that was taken.
  suffices hskips : Draws file (fun _ (o : Option Binding × Bool) => o.1 = b?) _ by
    refine hskips.mono fun behind o ho => ?_
    rw [ho]
    exact hb.mono (by simp)
  refine (draws_skipIf _).bind fun _ _ _ => .ite (.pure rfl) ?_
  refine draws_fieldsEnd.bind fun _ _ _ => .ite (.pure rfl) ?_
  have hskip : (do
      skipTo fun t => t.isSymbol "," || t.isSymbol "\x7d" || t.opensItem
      let _ ← skipIf (·.isSymbol ",")
      Pure.pure (b?, true) : Reader (Option Binding × Bool)).Draws file fun _ o => o.1 = b? :=
    (draws_skipTo _).bind fun _ _ _ => (draws_skipIf _).bind fun _ _ _ => .pure rfl
  exact .ite ((draws_complain _).bind fun _ _ _ => hskip) hskip

theorem draws_giveUp {V : List Token → Option α → Prop} (hV : ∀ taken, V taken none) :
    giveUp.Draws file V :=
  (draws_skipTo _).bind fun _ _ _ => .pure (hV _)

theorem draws_struct {keyword : Token} (hkeyword : keyword.isKeyword "struct" = true) :
    (struct keyword).Draws file fun taken d? =>
      Found StructDecl.tokens StructDecl.Shaped (keyword :: taken) d?.toList := by
  refine draws_name.bind fun taken name? hname => ?_
  cases name? with
  | none => exact draws_giveUp fun _ => .nil
  | some name =>
      obtain ⟨hidentifier, hin⟩ := hname name rfl
      refine (draws_symbol _).bind fun braces brace? _ => ?_
      cases brace? with
      | none => exact draws_giveUp fun _ => .nil
      | some brace =>
          refine (draws_items draws_field).bind fun taken' fields hfields => ?_
          refine (draws_symbol _).bind fun _ _ _ => (draws_skipIf _).bind fun _ _ _ => .pure ?_
          refine .single ?_ ⟨hkeyword, hidentifier, hfields.each⟩
          have hlater := hfields.tokens.trans (List.sublist_append_right braces taken')
          refine ((hin.append hlater).trans ?_).cons_cons keyword
          simp

/-! ### Functions -/

theorem draws_param : param.Draws file fun taken o =>
    Found Binding.tokens Binding.Named taken o.1.toList := by
  refine draws_binding.bind fun taken b? hb => ?_
  cases b? with
  | none => exact .pure .nil
  | some b => exact (draws_skipIf _).bind fun _ _ _ => .pure (hb.mono (by simp))

theorem draws_params : params.Draws file (Found Binding.tokens Binding.Named) :=
  (draws_next _).bind fun _ _ _ => .ite (.pure .nil)
    ((draws_items draws_param).mono fun _ _ hparams => hparams.mono (by simp))

/-- What a reader does that takes a run of tokens first. -/
theorem draws_run_bind {p : Token → Bool} {f : List Token → Reader β}
    (hf : ∀ body rest, body ++ rest <:+ file →
      (f body rest).Draws (fun taken b => W (body ++ taken) b) rest) :
    (run p >>= f).Draws file W := by
  intro ts hts
  have hcut := cut_append p 0 ts
  obtain ⟨taken, hsplit, hvalue, halong⟩ := hf _ _ (hcut ▸ hts)
  exact ⟨_ ++ taken, split_append hcut.symm hsplit, hvalue, halong.of_suffix ⟨_, hcut⟩⟩

/-- The body is a run of the tokens of the file, and its tokens and the last one of its function are
some of those taken. -/
structure BodyFound (file taken : List Token) (body : List Token × Token) : Prop where
  run : IsRun file body.1 body.2
  tokens : (closed body.1 body.2).Sublist taken

theorem BodyFound.mono {taken taken' : List Token} {body : List Token × Token}
    (h : BodyFound file taken body) (htaken : taken.Sublist taken') : BodyFound file taken' body :=
  ⟨h.run, h.tokens.trans htaken⟩

/-- A body with the last token of its function behind it. -/
theorem bodyFound_of_next {body rest taken : List Token} {stop : Token}
    (hfile : body ++ stop :: rest <:+ file) :
    BodyFound file (body ++ stop :: taken) (body, stop) := by
  obtain ⟨before, hbefore⟩ := hfile
  refine ⟨⟨before, stop :: rest, hbefore.symm, .inl rfl⟩, ?_⟩
  refine closed_sublist (List.sublist_append_left _ _) (.inr ?_)
  exact (List.cons_sublist_cons.2 (List.nil_sublist taken)).append_left body

/-- A body that ends its function. -/
theorem bodyFound_of_last {body rest taken : List Token} {stop : Token}
    (hfile : body ++ rest <:+ file) (hlast : body.getLast? = some stop) :
    BodyFound file (body ++ taken) (body, stop) := by
  obtain ⟨before, hbefore⟩ := hfile
  exact ⟨⟨before, rest, hbefore.symm, .inr hlast⟩,
    closed_sublist (List.sublist_append_left _ _) (.inl hlast)⟩

theorem draws_block : block.Draws file fun taken b? => ∀ b ∈ b?, BodyFound file taken b := by
  refine draws_run_bind fun body rest hfile => ?_
  have hrest : rest <:+ file := (List.suffix_append _ _).trans hfile
  refine draws_peek_bind hrest ?_ fun close others hclose => ?_
  · exact (draws_complain _).bind fun _ _ _ => .pure (by simp)
  · subst hclose
    refine draws_skip_bind hrest (.pure ?_)
    rintro b ⟨⟩
    exact bodyFound_of_next hfile

theorem draws_expression :
    expression.Draws file fun taken b? => ∀ b ∈ b?, BodyFound file taken b := by
  refine draws_run_bind fun body rest hfile => ?_
  have hrest : rest <:+ file := (List.suffix_append _ _).trans hfile
  cases hlast : body.getLast? with
  | none =>
      exact (draws_complain _).bind (fun _ _ _ => (draws_skipIf _).bind fun _ _ _ =>
        .pure (by simp)) rest hrest
  | some last =>
      have hunclosed : (do
          complain (.missing ";")
          Pure.pure (some (body, last)) : Reader (Option (List Token × Token))).Draws file
            fun taken b? => ∀ b ∈ b?, BodyFound file (body ++ taken) b := by
        refine (draws_complain _).bind fun taken _ _ => .pure ?_
        rintro b ⟨⟩
        exact bodyFound_of_last hfile hlast
      refine draws_peek_bind hrest hunclosed fun stop others hstop => ?_
      simp only
      split
      · subst hstop
        refine draws_skip_bind hrest (.pure ?_)
        rintro b ⟨⟩
        exact bodyFound_of_next hfile
      · exact hunclosed rest hrest

theorem draws_functionBody :
    functionBody.Draws file fun taken b => ∀ body ∈ b.2, BodyFound file taken body := by
  refine (draws_skipIf _).bind fun before _ _ => .ite ?_ ?_
  · refine draws_block.bind fun taken b? hb => (draws_skipIf _).bind fun _ _ _ => .pure ?_
    exact fun body hbody => (hb body hbody).mono (by simp)
  · refine draws_expression.bind fun taken b? hb => .pure ?_
    exact fun body hbody => (hb body hbody).mono (by simp)

theorem draws_returnType : returnType.Draws file fun taken r? =>
    Found TypeRef.tokens TypeRef.Named taken r?.toList :=
  (draws_skipIf _).bind fun _ _ _ => .ite
    (draws_typeRef.mono fun _ _ htype => htype.mono (List.sublist_append_right _ _)) (.pure .nil)

theorem draws_function {keyword : Token} (hkeyword : keyword.isKeyword "function" = true) :
    (function keyword).Draws file fun taken d? =>
      Found FunctionDecl.tokens (FunctionDecl.Shaped file) (keyword :: taken) d?.toList := by
  refine draws_name.bind fun taken name? hname => ?_
  cases name? with
  | none => exact draws_giveUp fun _ => .nil
  | some name =>
      obtain ⟨hidentifier, hin⟩ := hname name rfl
      refine (draws_symbol _).bind fun opened opening? _ => ?_
      cases opening? with
      | none => exact draws_giveUp fun _ => .nil
      | some opening =>
          refine draws_params.bind fun taken' params hparams => ?_
          refine (draws_symbol _).bind fun closed closing? _ => ?_
          cases closing? with
          | none => exact draws_giveUp fun _ => .nil
          | some closing =>
              refine draws_returnType.bind fun taken'' returns? hreturns => ?_
              refine (draws_symbol _).bind fun pointed arrow? _ => ?_
              cases arrow? with
              | none => exact draws_giveUp fun _ => .nil
              | some arrow =>
                  refine draws_functionBody.bind fun rest body hbody => ?_
                  obtain ⟨block, _ | ⟨tokens, stop⟩⟩ := body
                  · exact .pure .nil
                  · obtain ⟨hrun, hrest⟩ := hbody (tokens, stop) rfl
                    refine .pure (.single ?_ ⟨hkeyword, hidentifier, hparams.each,
                      fun r hr => hreturns.each r (Option.mem_toList.2 hr), hrun⟩)
                    refine (hin.append ?_).cons_cons keyword
                    refine List.sublist_append_of_sublist_right (hparams.tokens.append ?_)
                    refine List.sublist_append_of_sublist_right (hreturns.tokens.append ?_)
                    rw [List.append_nil]
                    exact List.sublist_append_of_sublist_right hrest

/-! ### Files -/

theorem draws_useClause {keyword : Token} (hkeyword : keyword.isKeyword "use" = true) :
    (useClause keyword).Draws file fun taken c? =>
      Found UseClause.tokens UseClause.Shaped (keyword :: taken) c?.toList := by
  refine draws_qualifiedName.bind fun taken name? hname => ?_
  cases name? with
  | none => exact draws_giveUp fun _ => .nil
  | some name =>
      have hin : name.tokens.Sublist taken := by simpa using hname.tokens
      have hnamed : name.Named := hname.each name (by simp)
      refine (draws_skipIf _).bind fun _ _ _ => .pure (.single ?_ ⟨hkeyword, hnamed⟩)
      exact (List.sublist_append_of_sublist_left hin).cons_cons keyword

theorem draws_packageClause : packageClause.Draws file fun taken q? =>
    Found QualifiedName.tokens QualifiedName.Named taken q?.toList :=
  (draws_skipIf _).bind fun _ _ _ => .ite
    (draws_qualifiedName.bind fun _ _ hname =>
      (draws_skipIf _).bind fun _ _ _ => .pure (hname.mono (by simp)))
    ((draws_complain _).bind fun _ _ _ => .pure .nil)

theorem draws_item : item.Draws file fun taken o =>
    Found tokensOfItem (IsShaped file) taken o.1.toList := by
  refine fun ts hts => draws_peek_bind hts (.pure .nil) fun t rest ht => ?_
  subst ht
  simp only
  split
  · next hkeyword =>
      refine draws_skip_bind hts ((draws_useClause hkeyword).bind fun taken c? hc => .pure ?_)
      rw [List.append_nil]
      exact hc.map (fun _ => rfl) fun _ h => h
  split
  · next hkeyword =>
      refine draws_skip_bind hts ((draws_struct hkeyword).bind fun taken d? hd => .pure ?_)
      rw [List.append_nil]
      exact hd.map (fun _ => rfl) fun _ h => h
  split
  · next hkeyword =>
      refine draws_skip_bind hts ((draws_function hkeyword).bind fun taken d? hd => .pure ?_)
      rw [List.append_nil]
      exact hd.map (fun _ => rfl) fun _ h => h
  · exact (draws_complain _).bind (fun _ _ _ => draws_skip.bind fun _ _ _ =>
      (draws_skipTo _).bind fun _ _ _ => .pure .nil) _ hts

/-- A file is read in the order of its tokens. -/
theorem draws_tree : tree.Draws file fun taken t => ∃ items : List (UseClause ⊕ Declaration),
    items.filterMap Sum.getLeft? = t.uses ∧ items.filterMap Sum.getRight? = t.declarations ∧
      (t.package?.toList.flatMap QualifiedName.tokens ++ items.flatMap tokensOfItem).Sublist taken ∧
      (∀ q ∈ t.package?, q.Named) ∧ ∀ i ∈ items, IsShaped file i := by
  refine draws_packageClause.bind fun taken package? hpackage => ?_
  refine (draws_items draws_item).bind fun taken' items hitems => .pure ?_
  refine ⟨items, rfl, rfl, ?_, fun q hq => hpackage.each q (Option.mem_toList.2 hq), hitems.each⟩
  rw [List.append_nil]
  exact hpackage.tokens.append hitems.tokens

end Reader

/-! ### Trees of texts -/

/-- The token ends before the other one starts, and it starts on an earlier line or further left on
the same one. -/
structure Token.Precedes (t u : Token) : Prop where
  apart : t.stopOffset ≤ u.pos.offset
  before : t.pos.Before u.pos

/-- The tokens of a text come one behind the other. -/
theorem TokenList.precedes_ofText (text : String) :
    (TokenList.ofText text).tokens.Pairwise Token.Precedes := by
  refine (pairwise_ofText text).imp_of_mem fun {t u} ht hu hapart => ⟨hapart, ?_⟩
  have hlt := Token.lt_stopOffset_of_mem_ofText ht
  exact (Token.stands_of_mem_ofText ht).place.before (Token.stands_of_mem_ofText hu).place
    (hlt.trans_le hapart)

/-- Items sorted into those of one sort and those of the other are the same items. -/
theorem perm_of_sorts {α β : Type} (items : List (α ⊕ β)) :
    ((items.filterMap Sum.getLeft?).map Sum.inl ++ (items.filterMap Sum.getRight?).map Sum.inr).Perm
      items := by
  induction items with
  | nil => exact .nil
  | cons i items ih =>
      cases i with
      | inl a => exact ih.cons _
      | inr b => exact List.perm_middle.trans (ih.cons _)

/-- Sorting by keyword restores the order of the items. -/
theorem Tree.items_eq {t : Tree} {items : List (UseClause ⊕ Declaration)}
    (huses : items.filterMap Sum.getLeft? = t.uses)
    (hdeclarations : items.filterMap Sum.getRight? = t.declarations)
    (hitems : items.Pairwise fun i j => (keywordOf i).pos.offset < (keywordOf j).pos.offset) :
    t.items = items := by
  have hperm : t.items.Perm items := by
    refine (List.mergeSort_perm _ _).trans ?_
    rw [← huses, ← hdeclarations]
    exact perm_of_sorts items
  have hsorted : t.items.Pairwise fun i j =>
      (keywordOf i).pos.offset ≤ (keywordOf j).pos.offset := by
    refine (List.pairwise_mergeSort (fun i j k hij hjk => ?_) (fun i j => ?_) _).imp
      of_decide_eq_true
    · exact decide_eq_true (le_trans (of_decide_eq_true hij) (of_decide_eq_true hjk))
    · simpa using le_total _ _
  have hdistinct : (items.map fun i => (keywordOf i).pos.offset).Nodup :=
    List.pairwise_map.2 (hitems.imp ne_of_lt)
  refine hperm.eq_of_pairwise (fun i j hi hj hij hji => ?_) hsorted (hitems.imp le_of_lt)
  exact List.inj_on_of_nodup_map hdistinct (hperm.mem_iff.1 hi) hj (le_antisymm hij hji)

/-- The place of the next token, or the end. -/
def placeOf (stop : Position) (ts : List Token) : Position :=
  (ts.head?.map Token.pos).getD stop

namespace Complaint

theorem pos_toError {c : Complaint} {ts : List Token} (h : c.token? = ts.head?) (stop : Position) :
    (c.toError stop).pos = placeOf stop ts := by
  rw [toError, h, placeOf]
  cases ts.head? <;> rfl

/-- Each complaint is about what comes next somewhere along the way. -/
theorem Along.exists_of_mem {ts rest : List Token} {cs : List Complaint} (h : Along ts cs rest) :
    ∀ c ∈ cs, ∃ us, us <:+ ts ∧ c.token? = us.head? := by
  induction h with
  | nil => simp
  | cons hmid hc _ ih =>
      refine List.forall_mem_cons.2 ⟨⟨_, hmid, hc⟩, fun c' hc' => ?_⟩
      obtain ⟨us, hus, hnext⟩ := ih c' hc'
      exact ⟨us, hus.trans hmid, hnext⟩

/-- Complaints that come one behind the other are about places that do. -/
theorem Along.pairwise {ts rest : List Token} {cs : List Complaint} {R : Position → Position → Prop}
    {stop : Position} (h : Along ts cs rest)
    (hR : ∀ us vs, us <:+ ts → vs <:+ us → R (placeOf stop us) (placeOf stop vs)) :
    (cs.map (toError stop)).Pairwise fun e e' => R e.pos e'.pos := by
  induction h with
  | nil => exact .nil
  | cons hmid hc hcs ih =>
      refine List.pairwise_cons.2 ⟨?_, ih fun us vs hus => hR us vs (hus.trans hmid)⟩
      rw [List.forall_mem_map]
      intro c' hc'
      obtain ⟨us, hus, hnext⟩ := hcs.exists_of_mem c' hc'
      rw [pos_toError hc, pos_toError hnext]
      exact hR _ _ hmid hus

end Complaint

/-- What comes next in a text does not come before what has come before. -/
theorem placeOf_mono {text : String} {us vs : List Token}
    (hus : us <:+ (TokenList.ofText text).tokens) (hvs : vs <:+ us) :
    placeOf (TokenList.ofText text).stop us = placeOf (TokenList.ofText text).stop vs ∨
      (placeOf (TokenList.ofText text).stop us).Before
        (placeOf (TokenList.ofText text).stop vs) := by
  cases us with
  | nil => exact .inl (by rw [List.suffix_nil.1 hvs])
  | cons u us =>
      rcases List.suffix_cons_iff.1 hvs with rfl | hvs
      · exact .inl rfl
      · refine .inr ?_
        have hu := hus.subset List.mem_cons_self
        cases vs with
        | nil =>
            have hstands := Token.stands_of_mem_ofText hu
            refine hstands.place.before TokenList.stop_in_ofText ?_
            have hlt := Token.lt_stopOffset_of_mem_ofText hu
            have hle := hstands.stop.le
            rw [Position.offset_advance, String.length_toList] at hle
            rw [← TokenList.offset_stop] at hle
            exact hlt.trans_le hle
        | cons v vs =>
            have hpairwise := (TokenList.precedes_ofText text).sublist hus.sublist
            exact (List.rel_of_pairwise_cons hpairwise (hvs.subset List.mem_cons_self)).before

/-- The tokens of the tree are some of the tokens of the file and come one behind the other: those
of the package first, and with the use clauses and declarations sorted by keyword, those of one of
them before those of the next. All names are identifiers and all bodies are runs of tokens. The use
clauses are in the order of their keywords, and so are the declarations. -/
structure Tree.InSourceOrder (file : List Token) (t : Tree) : Prop where
  tokens : t.tokens.Sublist file
  ordered : t.tokens.Pairwise Token.Precedes
  package : ∀ q ∈ t.package?, q.Named
  items : ∀ i ∈ t.items, IsShaped file i
  uses : t.items.filterMap Sum.getLeft? = t.uses
  declarations : t.items.filterMap Sum.getRight? = t.declarations

/-- A tree whose parts are found in the file one behind the other is in source order. -/
theorem Tree.inSourceOrder_of_sublist {text : String} {t : Tree}
    {items : List (UseClause ⊕ Declaration)} (huses : items.filterMap Sum.getLeft? = t.uses)
    (hdeclarations : items.filterMap Sum.getRight? = t.declarations)
    (hin : (t.package?.toList.flatMap QualifiedName.tokens ++ items.flatMap tokensOfItem).Sublist
      (TokenList.ofText text).tokens)
    (hpackage : ∀ q ∈ t.package?, q.Named)
    (hshaped : ∀ i ∈ items, IsShaped (TokenList.ofText text).tokens i) :
    t.InSourceOrder (TokenList.ofText text).tokens := by
  have hordered := (TokenList.precedes_ofText text).sublist hin
  have hkeywords : items.Pairwise fun i j =>
      (keywordOf i).pos.offset < (keywordOf j).pos.offset := by
    have hflat := List.pairwise_flatMap.1 (List.pairwise_append.1 hordered).2.1
    refine hflat.2.imp_of_mem fun {i j} hi hj h => ?_
    have hmem : keywordOf i ∈ (TokenList.ofText text).tokens :=
      hin.subset (List.mem_append_right _ (List.mem_flatMap.2 ⟨i, hi, keywordOf_mem i⟩))
    exact (Token.lt_stopOffset_of_mem_ofText hmem).trans_le
      (h _ (keywordOf_mem i) _ (keywordOf_mem j)).apart
  obtain rfl : t.items = items := items_eq huses hdeclarations hkeywords
  exact ⟨hin, hordered, hpackage, hshaped, huses, hdeclarations⟩

/-- A tree that is read from a text is in source order. -/
theorem Tree.inSourceOrder_parse (text : String) :
    (parse text).1.InSourceOrder (TokenList.ofText text).tokens := by
  obtain ⟨taken, hsplit, ⟨items, huses, hdeclarations, hin, hpackage, hshaped⟩, -⟩ :=
    Reader.draws_tree (TokenList.ofText text).tokens List.suffix_rfl
  have hsublist := hin.trans (hsplit ▸ List.sublist_append_left taken _)
  exact inSourceOrder_of_sublist huses hdeclarations hsublist hpackage hshaped

/-- The functions of a tree in source order are among its items. -/
theorem Tree.InSourceOrder.mem_items {file : List Token} {t : Tree} (h : t.InSourceOrder file)
    {d : FunctionDecl} (hd : d ∈ t.functions) : .inr (.function d) ∈ t.items := by
  obtain ⟨declaration, hdeclaration, hfunction⟩ := List.mem_filterMap.1 hd
  rw [← h.declarations] at hdeclaration
  obtain ⟨i, hi, hright⟩ := List.mem_filterMap.1 hdeclaration
  obtain rfl := Sum.getRight?_eq_some_iff.1 hright
  cases declaration with
  | struct => simp [Declaration.function?] at hfunction
  | function => exact Option.some.inj hfunction ▸ hi

/-- Each item of a tree in source order has a keyword of its own, by line and column. -/
theorem Tree.InSourceOrder.nodup_keywords {file : List Token} {t : Tree}
    (h : t.InSourceOrder file) :
    (t.items.map fun i => ((keywordOf i).pos.line, (keywordOf i).pos.column)).Nodup := by
  refine List.pairwise_map.2 ((List.pairwise_flatMap.1
    (List.pairwise_append.1 h.ordered).2.1).2.imp fun {i j} hprecedes heq => ?_)
  obtain ⟨hline, hcolumn⟩ := Prod.mk.inj heq
  have hbefore := (hprecedes _ (keywordOf_mem i) _ (keywordOf_mem j)).before
  rcases hbefore with hlt | ⟨-, hlt⟩ <;> omega

/-- **Trees are in source order.** However malformed a text is, its tree is in source order, and the
errors that follow those about stray characters are in the order of what they are about. -/
theorem Tree.sourceOrder_of_parse (text : String) :
    (parse text).1.InSourceOrder (TokenList.ofText text).tokens ∧
      ∃ added, (parse text).2 = strayErrors text ++ added ∧
        added.Pairwise fun e e' => e.pos = e'.pos ∨ e.pos.Before e'.pos := by
  obtain ⟨taken, hsplit, -, halong⟩ :=
    Reader.draws_tree (TokenList.ofText text).tokens List.suffix_rfl
  have hadded := halong.pairwise (R := fun p q => p = q ∨ p.Before q)
    fun us vs hus => placeOf_mono hus
  exact ⟨inSourceOrder_parse text, _, rfl, hadded⟩

end Npl
