import Polyview.Source.Location
import Polyview.Target

/-! # Errors

Every failure carries a code, which names the guarantee that was violated, and most carry a location in
the source. Six kinds are told apart by what they are about. -/

namespace Polyview

/-! ### Codes -/

inductive Code
  | noComponent
  | multipleComponents
  | mixedUnit
  | extraneousStatement
  | missingRender
  | malformedRender
  | anonymousClass
  | componentOptions
  | unmarkedMember
  | multipleMarkers
  | markerKind
  | propConstraint
  | eventConstraint
  | visibility
  | computedShape
  | staticMember
  | memberKind
  | unknownRef
  | injectionToken
  | spreadAttribute
  | spreadChild
  | nestedMarkup
  | controlForm
  | mutation
  | tag
  | backendFeature
  | missingSelector
  | parse
  | invalidOutput
  /-- A code of a hook that is not part of this library. -/
  | custom (text : String)
deriving DecidableEq, Repr

def Code.text : Code → String
  | .noComponent => "TSR101"
  | .multipleComponents => "TSR102"
  | .mixedUnit => "TSR103"
  | .extraneousStatement => "TSR104"
  | .missingRender => "TSR105"
  | .malformedRender => "TSR106"
  | .anonymousClass => "TSR107"
  | .componentOptions => "TSR108"
  | .unmarkedMember => "TSR201"
  | .multipleMarkers => "TSR202"
  | .markerKind => "TSR203"
  | .propConstraint => "TSR204"
  | .eventConstraint => "TSR205"
  | .visibility => "TSR206"
  | .computedShape => "TSR207"
  | .staticMember => "TSR208"
  | .memberKind => "TSR209"
  | .unknownRef => "TSR210"
  | .injectionToken => "TSR211"
  | .spreadAttribute => "TSR301"
  | .spreadChild => "TSR302"
  | .nestedMarkup => "TSR303"
  | .controlForm => "TSR304"
  | .mutation => "TSR305"
  | .tag => "TSR306"
  | .backendFeature => "TSR401"
  | .missingSelector => "TSR402"
  | .parse => "TSR501"
  | .invalidOutput => "TSR502"
  | .custom text => text

def Code.guarantee : Code → String
  | .noComponent | .multipleComponents => "Each source unit declares exactly one annotated class."
  | .mixedUnit => "A source unit is either a component or a provider, never both."
  | .extraneousStatement => "Only imports and type declarations may accompany the annotated class."
  | .missingRender | .malformedRender => "A component has one parameterless render() returning a single markup tree."
  | .anonymousClass => "Annotated classes are named."
  | .componentOptions => "Component options are static literals."
  | .unmarkedMember | .multipleMarkers => "Every data member and accessor carries exactly one role marker."
  | .markerKind => "Role markers are only applied to the declaration kind they describe."
  | .propConstraint => "Props are public and readonly."
  | .eventConstraint => "Events are public, readonly, on-prefixed and initialized with an EventEmitter."
  | .visibility => "State, refs and injected dependencies are not publicly visible."
  | .computedShape => "Computed values are getters returning a single expression."
  | .staticMember => "Components carry no static members."
  | .memberKind => "Components declare fields, getters and methods only."
  | .unknownRef => "Template refs bind declared @Ref members."
  | .injectionToken => "Injected and provided members name their class token."
  | .spreadAttribute | .spreadChild => "Template structure is statically analyzable."
  | .nestedMarkup => "Markup only appears in template positions or <For> callbacks."
  | .controlForm => "Control forms carry their required parts."
  | .mutation => "Every state mutation has a functional-update equivalent."
  | .tag => "Element tags are static names."
  | .backendFeature => "Generated code only uses features the target can express."
  | .missingSelector => "Custom-element targets receive a selector."
  | .parse => "Input is syntactically valid TypeScript with JSX."
  | .invalidOutput => "Generated code parses and passes semantic checks."
  | .custom _ => "Unknown invariant."

/-! ### Kinds -/

inductive OutputFlaw
  | missingScript
  | script
deriving DecidableEq, Repr

inductive Error
  /-- The unit does not have the shape of exactly one component or provider. -/
  | structural (code : Code) (message : String) (location : Option Location)
  /-- A member violates the constraints of its role. -/
  | member (code : Code) (member message : String) (location : Option Location)
  /-- A construct that cannot be analysed statically. -/
  | unsupported (code : Code) (message : String) (location : Option Location)
  /-- A feature that a target cannot express. -/
  | backend (code : Code) (target : Target) (feature : String)
  | parse (snippet : Option String) (location : Option Location)
  | invalidOutput (target : Target) (flaw : OutputFlaw)
deriving DecidableEq, Repr

namespace Error

/-- A feature that a target cannot express. -/
def lacks (target : Target) (feature : String) : Error := .backend .backendFeature target feature

def lacksSelector (target : Target) : Error := .backend .missingSelector target "components without a `selector` option"

def code : Error → Code
  | .structural code .. => code
  | .member code .. => code
  | .unsupported code .. => code
  | .backend code .. => code
  | .parse .. => .parse
  | .invalidOutput .. => .invalidOutput

def location : Error → Option Location
  | .structural _ _ location => location
  | .member _ _ _ location => location
  | .unsupported _ _ location => location
  | .parse _ location => location
  | .backend .. => none
  | .invalidOutput .. => none

def kind : Error → String
  | .structural .. => "StructuralViolation"
  | .member .. => "MemberConstraintViolation"
  | .unsupported .. => "UnsupportedConstruct"
  | .backend .. => "BackendUnsupported"
  | .parse .. => "Parse"
  | .invalidOutput .. => "InvalidOutput"

def text (error : Error) : String :=
  "[" ++ error.code.text ++ "]" ++
    match error with
    | .structural _ message _ => " " ++ message
    | .member _ name message _ => " member `" ++ name ++ "`: " ++ message
    | .unsupported _ message _ => " " ++ message
    | .backend _ target feature => " the " ++ target.name ++ " target does not support " ++ feature
    | .parse none _ => ""
    | .parse (some snippet) _ => " cannot parse `" ++ snippet ++ "`"
    | .invalidOutput target .missingScript =>
      " generated " ++ target.name ++ " output is invalid: missing <script> block"
    | .invalidOutput target .script => " generated " ++ target.name ++ " output is invalid"

end Error

end Polyview
