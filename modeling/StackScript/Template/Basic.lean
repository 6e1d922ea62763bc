import StackScript.Template.Expr

/-!
# Templates

A template is a list of statements in source order. A header gives one of the five sections that
hold a single value; an assignment binds a declaration to a name in the section of its kind.

## Main definitions

* `Header`: the sections that hold a single value.
* `DeclKind`: the kinds of declarations, and the sections they land in.
* `Statement`, `Template`.
* `sectionOrder`: the sections of a document in their fixed order.
* `modifierNames`, `policyValues?`: the modifiers of a resource, and the names that policies allow.
* `Fragment`: any piece of a template, down to a single expression.
-/

namespace StackScript

/-- The sections that hold a single value. -/
inductive Header where
  | formatVersion
  | description
  | transform
  | metadata
  | globals
deriving DecidableEq

namespace Header

/-- All headers, in the order of a document. -/
def all : List Header := [.formatVersion, .description, .transform, .metadata, .globals]

/-- The keyword of a header, also its key in the document. -/
def keyword : Header → String
  | .formatVersion => "AWSTemplateFormatVersion"
  | .description => "Description"
  | .transform => "Transform"
  | .metadata => "Metadata"
  | .globals => "Globals"

/-- The header that a keyword introduces. -/
def ofKeyword? (word : String) : Option Header := all.find? (·.keyword == word)

/-- The name of the form of a header in messages. -/
def kindName : Header → String
  | .formatVersion => "FormatVersionSection"
  | .description => "DescriptionSection"
  | .transform => "TransformSection"
  | .metadata => "MetadataSection"
  | .globals => "GlobalsSection"

end Header

/-- The kinds of declarations. -/
inductive DeclKind where
  | parameter
  | condition
  | resource
  | mapping
  | output
  | rule
deriving DecidableEq

namespace DeclKind

/-- The section of the document that declarations of a kind land in. -/
def sectionKey : DeclKind → String
  | .parameter => "Parameters"
  | .condition => "Conditions"
  | .resource => "Resources"
  | .mapping => "Mappings"
  | .output => "Outputs"
  | .rule => "Rules"

/-- All kinds of declarations. -/
def all : List DeclKind := [.parameter, .condition, .resource, .mapping, .output, .rule]

/-- The kind whose declarations land in a section. -/
def ofSectionKey? (key : String) : Option DeclKind := all.find? (·.sectionKey == key)

/-- The kind of a declaration that consists of one object. -/
def ofBody : BodyKind → DeclKind
  | .parameter => .parameter
  | .output => .output
  | .mapping => .mapping
  | .rule => .rule

end DeclKind

/-- The kind of declaration that an expression is. -/
def Expr.declKind? : Expr → Option DeclKind
  | .resource .. => some .resource
  | .body kind _ => some (.ofBody kind)
  | .condition _ => some .condition
  | _ => none

/-- The keywords of declarations, in the order in which messages list them. -/
def declarationKeywords : List String :=
  ["Resource", "Parameter", "Output", "Mapping", "Condition", "Rule"]

/-- The sections of a document, in the order in which they are written. -/
def sectionOrder : List String :=
  Header.all.map Header.keyword ++
    [DeclKind.parameter, .rule, .mapping, .condition, .resource, .output].map DeclKind.sectionKey

/-- The modifiers of a resource, in the order in which they are written. -/
def modifierNames : List String :=
  ["DependsOn", "Condition", "DeletionPolicy", "UpdateReplacePolicy", "CreationPolicy",
    "UpdatePolicy", "Metadata", "Version"]

/-- The modifiers whose values name other declarations. -/
def referenceModifiers : List String := ["DependsOn", "Condition"]

/-- The names that a policy modifier allows. -/
def policyValues? : String → Option (List String)
  | "DeletionPolicy" => some ["Delete", "Retain", "RetainExceptOnCreate", "Snapshot"]
  | "UpdateReplacePolicy" => some ["Delete", "Retain", "Snapshot"]
  | _ => none

/-- A statement of a template. An assignment knows the line it starts on, or zero. -/
inductive Statement where
  | header (kind : Header) (value : Expr)
  | assign (name : String) (value : Expr) (line : Int)

/-- The statements of a script in source order. -/
structure Template where
  statements : List Statement

/-- A piece of a template. -/
inductive Fragment where
  | template (t : Template)
  | statement (s : Statement)
  | modifier (name : String) (value : Expr)
  | expr (e : Expr)

/-- The name of the form of a piece of a template in messages. -/
def Fragment.kindName : Fragment → String
  | .template _ => "Template"
  | .statement (.header kind _) => kind.kindName
  | .statement (.assign ..) => "Assignment"
  | .modifier .. => "ResourceAttribute"
  | .expr e => e.kindName

end StackScript
