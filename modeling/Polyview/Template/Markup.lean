import Polyview.Component.Template
import Polyview.Text.JsxText
import Polyview.Unit.Member
import Polyview.Error

/-! # From markup to templates

The markup that a render method returns becomes a template. Code in it is kept as text. What cannot be told
before the code runs is refused: spread attributes and children, tags that are no plain names, and markup
inside of expressions other than the callbacks of repetitions. -/

namespace Polyview

open Script Text

section

variable (source : List Char)

def unsupportedAt (span : Span) (code : Code) (message : String) : Error :=
  .unsupported code message (Location.ofOffset? source span.start)

def tagOf : Node → Except Error String
  | .mk (.name text) _ _ => .ok text
  | .mk (.reference text) _ _ => .ok text
  | .mk (.jsxNamespaced space text) _ _ => .ok (space ++ ":" ++ text)
  | .mk _ span _ => .error (unsupportedAt source span .tag ("`" ++ span.text source ++ "` is not a static tag name"))

def rejectMarkup (expr : Node) : Except Error Unit :=
  match expr.nodes.find? isMarkup with
  | some markup =>
    .error (unsupportedAt source markup.span .nestedMarkup
      "markup inside an expression; use <Show> or <For> instead")
  | none => .ok ()

/-! ### Object literals -/

def entryOf? : Node → Option MapEntry
  | .mk .property _ [.mk (.name key) _ _, value] => some ⟨key, textOf source value⟩
  | .mk .property _ [.mk (.string key _) _ _, value] => some ⟨key, textOf source value⟩
  | .mk .shorthand _ [.mk (.reference key) span _] => some ⟨key, span.text source⟩
  | _ => none

def codeValue (expr : Node) : Except Error AttributeValue := do
  rejectMarkup source expr
  match expr.unwrapParens with
  | .mk .object span properties =>
    match properties.mapM (entryOf? source) with
    | some entries => return .objectMap entries (span.text source)
    | none => return .expression (textOf source expr)
  | _ => return .expression (textOf source expr)

/-! ### Callbacks -/

def patternText? : Node → Option String
  | .mk (.param _ _) _ parts =>
    match parts.filter fun part => !isDecorator part with
    | .mk (.binding name) _ _ :: _ => some name
    | pattern :: _ => some (textOf source pattern)
    | [] => none
  | .mk .restParam span _ => some (span.text source)
  | _ => none

def callbackParams (parts : List Node) : List String :=
  match parts.find? fun part => part.shape == .params with
  | some list => list.parts.filterMap (patternText? source)
  | none => []

/-! ### Nodes -/

/-- The template of an expression between two tags, if there is one: its markup, or the callback that it is,
or its text. -/
def childOf (markup callback : Except Error (Option Template)) : Node → Except Error (Option Template)
  | .mk .jsxEmpty _ _ => .ok none
  | .mk shape span parts => do
    match ← markup with
    | some node => return some node
    | none =>
      match ← callback with
      | some node => return some node
      | none =>
        rejectMarkup source (.mk shape span parts)
        return some (.expression (span.text source))

mutual
/-- The template of markup, and nothing for other expressions. -/
def markupOf? : Node → Except Error (Option Template)
  | .mk .paren _ [inner] => markupOf? inner
  | .mk .jsxElement _ (.mk (.jsxOpening selfClosing) _ (name :: items) :: content) => do
    let tag ← tagOf source name
    let attributes ← attributesOf tag items
    if selfClosing then return some (.selfClosing tag attributes)
    else return some (.element tag attributes (← childrenOf content))
  | .mk .jsxFragment _ content => do return some (.fragment (← childrenOf content))
  | _ => .ok none

def attributesOf (tag : String) : List Node → Except Error (List Attribute)
  | [] => .ok []
  | .mk (.jsxAttribute name) _ value :: rest => do
    let value ← attributeValue value
    return .mk name value :: (← attributesOf tag rest)
  | .mk .jsxSpreadAttribute span _ :: _ =>
    .error (unsupportedAt source span .spreadAttribute
      ("spread attribute on <" ++ tag ++ "> cannot be analyzed statically"))
  | _ :: rest => attributesOf tag rest

def attributeValue : List Node → Except Error AttributeValue
  | [.mk (.string value _) _ _] => .ok (.static value)
  | [.mk .jsxContainer _ [.mk .jsxEmpty _ _]] => .ok .boolean
  | [.mk .jsxContainer _ [expr]] => do
    match ← markupOf? expr with
    | some node => return .template node
    | none => codeValue source expr
  | [node] => do
    match ← markupOf? node with
    | some node => return .template node
    | none => return .boolean
  | _ => .ok .boolean

def childrenOf : List Node → Except Error (List Template)
  | [] => .ok []
  | .mk .jsxText span _ :: rest => do
    let others ← childrenOf rest
    return ((cleanJsxText? (span.text source)).map Template.text).toList ++ others
  | .mk .jsxContainer _ [expr] :: rest => do
    let child ← childOf source (markupOf? expr) (callbackOf? expr) expr
    return child.toList ++ (← childrenOf rest)
  | .mk .jsxSpreadChild span _ :: _ =>
    .error (unsupportedAt source span .spreadChild "spread children cannot be analyzed statically")
  | node :: rest => do
    let child ← markupOf? node
    return child.toList ++ (← childrenOf rest)

def callbackOf? : Node → Except Error (Option Template)
  | .mk .paren _ [inner] => callbackOf? inner
  | .mk (.arrow _ isExpression) span parts => do
    match ← returnedMarkup? isExpression parts with
    | some body => return some (.callback (span.text source) (callbackParams source parts) body)
    | none => return none
  | _ => .ok none

/-- The markup that an arrow function returns, given its parts: its body, or what its only statement
returns. -/
def returnedMarkup? (isExpression : Bool) : List Node → Except Error (Option Template)
  | [] => .ok none
  | [.mk .body _ [.mk .returnStatement _ [value]]] => if isExpression then .ok none else markupOf? value
  | [body] => if isExpression then markupOf? body else .ok none
  | _ :: rest => returnedMarkup? isExpression rest
end

def rootOf (expr : Node) : Except Error Template := do
  match ← markupOf? source expr with
  | some node => return node
  | none => throw (unsupportedAt source expr.unwrapParens.span .nestedMarkup "template root must be markup")

end

end Polyview
