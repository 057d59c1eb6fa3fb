import Polyview.Source.Span

/-! # Tokens

The words and signs of a script. A word may be a keyword; most keywords are reserved only in some places,
so a word keeps its spelling beside the keyword it may be. A sign that starts with `>` is first read as a
single `>`, because type arguments end with one. -/

namespace Polyview.Script

inductive AssignOp
  | plain
  /-- A sign such as `+=`; the operator between old and new value is `symbol`. -/
  | binary (symbol : String)
  /-- One of the signs `&&=`, `||=` and `??=`, which may leave the value alone. -/
  | logical (symbol : String)
deriving DecidableEq, Repr

inductive Punct
  | lbrace | rbrace | lparen | rparen | lbracket | rbracket
  | dot | ellipsis | semicolon | comma | colon | question | questionDot | arrow | decorator
  | less | greater | lessEq | greaterEq | eqEq | notEq | eqEqEq | notEqEq
  | plus | minus | star | slash | percent | starStar | plusPlus | minusMinus
  | shiftLeft | shiftRight | shiftRightZero | amp | bar | caret | bang | tilde
  | ampAmp | barBar | questionQuestion
  | assign (op : AssignOp)
deriving DecidableEq, Repr

/-- The signs with their spelling, longer ones before their own beginnings. Signs that start with `>` are
not listed apart from `>` itself. -/
def punctTable : List (List Char × Punct) := [
  (['.', '.', '.'], .ellipsis), (['=', '=', '='], .eqEqEq), (['!', '=', '='], .notEqEq),
  (['*', '*', '='], .assign (.binary "**")), (['<', '<', '='], .assign (.binary "<<")),
  (['&', '&', '='], .assign (.logical "&&")), (['|', '|', '='], .assign (.logical "||")),
  (['?', '?', '='], .assign (.logical "??")), (['=', '>'], .arrow), (['=', '='], .eqEq), (['!', '='], .notEq),
  (['<', '='], .lessEq), (['<', '<'], .shiftLeft), (['*', '*'], .starStar), (['+', '+'], .plusPlus),
  (['-', '-'], .minusMinus), (['&', '&'], .ampAmp), (['|', '|'], .barBar), (['?', '?'], .questionQuestion),
  (['?', '.'], .questionDot), (['+', '='], .assign (.binary "+")), (['-', '='], .assign (.binary "-")),
  (['*', '='], .assign (.binary "*")), (['/', '='], .assign (.binary "/")),
  (['%', '='], .assign (.binary "%")), (['&', '='], .assign (.binary "&")),
  (['|', '='], .assign (.binary "|")), (['^', '='], .assign (.binary "^")), (['\x7b'], .lbrace),
  (['\x7d'], .rbrace), (['('], .lparen), ([')'], .rparen), (['['], .lbracket), ([']'], .rbracket),
  (['.'], .dot), ([';'], .semicolon), ([','], .comma), ([':'], .colon), (['?'], .question),
  (['@'], .decorator), (['<'], .less), (['>'], .greater), (['='], .assign .plain), (['+'], .plus),
  (['-'], .minus), (['*'], .star), (['/'], .slash), (['%'], .percent), (['&'], .amp), (['|'], .bar),
  (['^'], .caret), (['!'], .bang), (['~'], .tilde)]

def greaterTable : List (List Char × Punct) := [
  (['>', '>', '>', '='], .assign (.binary ">>>")), (['>', '>', '>'], .shiftRightZero),
  (['>', '>', '='], .assign (.binary ">>")), (['>', '>'], .shiftRight), (['>', '='], .greaterEq),
  ([ '>' ], .greater)]

/-- A word that the grammar knows. The first two lines are reserved everywhere, the next two in strict
code; the rest mean something only in some places. -/
inductive Keyword
  | kwBreak | kwCase | kwCatch | kwClass | kwConst | kwContinue | kwDebugger | kwDefault | kwDelete | kwDo
  | kwElse | kwEnum | kwExport | kwExtends | kwFalse | kwFinally | kwFor | kwFunction | kwIf | kwImport
  | kwIn | kwInstanceof | kwNew | kwNull | kwReturn | kwSuper | kwSwitch | kwThis | kwThrow | kwTrue
  | kwTry | kwTypeof | kwVar | kwVoid | kwWhile | kwWith
  | kwImplements | kwInterface | kwLet | kwPackage | kwPrivate | kwProtected | kwPublic | kwStatic
  | kwYield
  | kwAwait | kwAsync | kwOf | kwGet | kwSet | kwAs | kwSatisfies | kwType | kwAbstract | kwDeclare
  | kwReadonly | kwOverride | kwAccessor | kwIs | kwAsserts | kwKeyof | kwUnique | kwInfer
  | kwNamespace | kwModule | kwGlobal | kwRequire | kwFrom | kwConstructor | kwOut | kwUsing
  | kwAny | kwUnknown | kwNever | kwObject | kwString | kwNumber | kwBoolean | kwSymbol | kwBigint
  | kwUndefined | kwIntrinsic | kwMeta | kwTarget | kwDefer | kwSource
deriving DecidableEq, Repr

def keywordTable : List (List Char × Keyword) := [
  (['b', 'r', 'e', 'a', 'k'], .kwBreak), (['c', 'a', 's', 'e'], .kwCase),
  (['c', 'a', 't', 'c', 'h'], .kwCatch), (['c', 'l', 'a', 's', 's'], .kwClass),
  (['c', 'o', 'n', 's', 't'], .kwConst), (['c', 'o', 'n', 't', 'i', 'n', 'u', 'e'], .kwContinue),
  (['d', 'e', 'b', 'u', 'g', 'g', 'e', 'r'], .kwDebugger), (['d', 'e', 'f', 'a', 'u', 'l', 't'], .kwDefault),
  (['d', 'e', 'l', 'e', 't', 'e'], .kwDelete), (['d', 'o'], .kwDo), (['e', 'l', 's', 'e'], .kwElse),
  (['e', 'n', 'u', 'm'], .kwEnum), (['e', 'x', 'p', 'o', 'r', 't'], .kwExport),
  (['e', 'x', 't', 'e', 'n', 'd', 's'], .kwExtends), (['f', 'a', 'l', 's', 'e'], .kwFalse),
  (['f', 'i', 'n', 'a', 'l', 'l', 'y'], .kwFinally), (['f', 'o', 'r'], .kwFor),
  (['f', 'u', 'n', 'c', 't', 'i', 'o', 'n'], .kwFunction), (['i', 'f'], .kwIf),
  (['i', 'm', 'p', 'o', 'r', 't'], .kwImport), (['i', 'n'], .kwIn),
  (['i', 'n', 's', 't', 'a', 'n', 'c', 'e', 'o', 'f'], .kwInstanceof), (['n', 'e', 'w'], .kwNew),
  (['n', 'u', 'l', 'l'], .kwNull), (['r', 'e', 't', 'u', 'r', 'n'], .kwReturn),
  (['s', 'u', 'p', 'e', 'r'], .kwSuper), (['s', 'w', 'i', 't', 'c', 'h'], .kwSwitch),
  (['t', 'h', 'i', 's'], .kwThis), (['t', 'h', 'r', 'o', 'w'], .kwThrow), (['t', 'r', 'u', 'e'], .kwTrue),
  (['t', 'r', 'y'], .kwTry), (['t', 'y', 'p', 'e', 'o', 'f'], .kwTypeof), (['v', 'a', 'r'], .kwVar),
  (['v', 'o', 'i', 'd'], .kwVoid), (['w', 'h', 'i', 'l', 'e'], .kwWhile), (['w', 'i', 't', 'h'], .kwWith),
  (['i', 'm', 'p', 'l', 'e', 'm', 'e', 'n', 't', 's'], .kwImplements),
  (['i', 'n', 't', 'e', 'r', 'f', 'a', 'c', 'e'], .kwInterface), (['l', 'e', 't'], .kwLet),
  (['p', 'a', 'c', 'k', 'a', 'g', 'e'], .kwPackage), (['p', 'r', 'i', 'v', 'a', 't', 'e'], .kwPrivate),
  (['p', 'r', 'o', 't', 'e', 'c', 't', 'e', 'd'], .kwProtected), (['p', 'u', 'b', 'l', 'i', 'c'], .kwPublic),
  (['s', 't', 'a', 't', 'i', 'c'], .kwStatic), (['y', 'i', 'e', 'l', 'd'], .kwYield),
  (['a', 'w', 'a', 'i', 't'], .kwAwait), (['a', 's', 'y', 'n', 'c'], .kwAsync), (['o', 'f'], .kwOf),
  (['g', 'e', 't'], .kwGet), (['s', 'e', 't'], .kwSet), (['a', 's'], .kwAs),
  (['s', 'a', 't', 'i', 's', 'f', 'i', 'e', 's'], .kwSatisfies), (['t', 'y', 'p', 'e'], .kwType),
  (['a', 'b', 's', 't', 'r', 'a', 'c', 't'], .kwAbstract), (['d', 'e', 'c', 'l', 'a', 'r', 'e'], .kwDeclare),
  (['r', 'e', 'a', 'd', 'o', 'n', 'l', 'y'], .kwReadonly),
  (['o', 'v', 'e', 'r', 'r', 'i', 'd', 'e'], .kwOverride),
  (['a', 'c', 'c', 'e', 's', 's', 'o', 'r'], .kwAccessor), (['i', 's'], .kwIs),
  (['a', 's', 's', 'e', 'r', 't', 's'], .kwAsserts), (['k', 'e', 'y', 'o', 'f'], .kwKeyof),
  (['u', 'n', 'i', 'q', 'u', 'e'], .kwUnique), (['i', 'n', 'f', 'e', 'r'], .kwInfer),
  (['n', 'a', 'm', 'e', 's', 'p', 'a', 'c', 'e'], .kwNamespace), (['m', 'o', 'd', 'u', 'l', 'e'], .kwModule),
  (['g', 'l', 'o', 'b', 'a', 'l'], .kwGlobal), (['r', 'e', 'q', 'u', 'i', 'r', 'e'], .kwRequire),
  (['f', 'r', 'o', 'm'], .kwFrom), (['c', 'o', 'n', 's', 't', 'r', 'u', 'c', 't', 'o', 'r'], .kwConstructor),
  (['o', 'u', 't'], .kwOut), (['u', 's', 'i', 'n', 'g'], .kwUsing), (['a', 'n', 'y'], .kwAny),
  (['u', 'n', 'k', 'n', 'o', 'w', 'n'], .kwUnknown), (['n', 'e', 'v', 'e', 'r'], .kwNever),
  (['o', 'b', 'j', 'e', 'c', 't'], .kwObject), (['s', 't', 'r', 'i', 'n', 'g'], .kwString),
  (['n', 'u', 'm', 'b', 'e', 'r'], .kwNumber), (['b', 'o', 'o', 'l', 'e', 'a', 'n'], .kwBoolean),
  (['s', 'y', 'm', 'b', 'o', 'l'], .kwSymbol), (['b', 'i', 'g', 'i', 'n', 't'], .kwBigint),
  (['u', 'n', 'd', 'e', 'f', 'i', 'n', 'e', 'd'], .kwUndefined),
  (['i', 'n', 't', 'r', 'i', 'n', 's', 'i', 'c'], .kwIntrinsic), (['m', 'e', 't', 'a'], .kwMeta),
  (['t', 'a', 'r', 'g', 'e', 't'], .kwTarget), (['d', 'e', 'f', 'e', 'r'], .kwDefer),
  (['s', 'o', 'u', 'r', 'c', 'e'], .kwSource)]

def keywordOf? (spelling : List Char) : Option Keyword :=
  (keywordTable.find? fun entry => entry.1 == spelling).map Prod.snd

/-- Whether a keyword never names anything. -/
def Keyword.isReserved : Keyword → Bool
  | .kwBreak | .kwCase | .kwCatch | .kwClass | .kwConst | .kwContinue | .kwDebugger | .kwDefault
  | .kwDelete | .kwDo | .kwElse | .kwEnum | .kwExport | .kwExtends | .kwFalse | .kwFinally | .kwFor
  | .kwFunction | .kwIf | .kwImport | .kwIn | .kwInstanceof | .kwNew | .kwNull | .kwReturn | .kwSuper
  | .kwSwitch | .kwThis | .kwThrow | .kwTrue | .kwTry | .kwTypeof | .kwVar | .kwVoid | .kwWhile
  | .kwWith => true
  | _ => false

/-- Whether a keyword names nothing in strict code. -/
def Keyword.isStrictReserved : Keyword → Bool
  | .kwImplements | .kwInterface | .kwLet | .kwPackage | .kwPrivate | .kwProtected | .kwPublic
  | .kwStatic | .kwYield => true
  | _ => false

inductive TokenKind
  | word (name : String) (keyword : Option Keyword)
  /-- A reserved word that is written with escapes; it names properties only. -/
  | escapedWord (name : String)
  | privateName (name : String)
  | punct (sign : Punct)
  /-- A number; `legacy` numbers start with a superfluous zero. -/
  | number (legacy : Bool)
  | bigint
  /-- A string with its value; `legacy` strings hold octal escapes. -/
  | string (value : String) (legacy : Bool)
  /-- A part of a template literal: up to its end if `closed`, up to a substitution otherwise. -/
  | template (closed valid : Bool)
  | regex
  | jsxText
  | eof
  | invalid
deriving DecidableEq, Repr

/-- A token with its place, and whether a line break stands before it. -/
structure Token where
  kind : TokenKind
  span : Span
  newline : Bool
deriving DecidableEq, Repr

/-- A comment that stands before a token, attached to the start of it. -/
structure Comment where
  span : Span
  attachedTo : Nat
deriving DecidableEq, Repr

end Polyview.Script
