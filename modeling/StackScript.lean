import StackScript.Main
import StackScript.Proofs.Compile.Scope
import StackScript.Proofs.Compile.Shape
import StackScript.Proofs.Decompile.Failures
import StackScript.Proofs.Decompile.FixedPoint
import StackScript.Proofs.Decompile.Nesting
import StackScript.Proofs.Decompile.RoundTrip
import StackScript.Proofs.Document.Symbols
import StackScript.Proofs.Grammar.Takes
import StackScript.Proofs.Grammar.Accepted
import StackScript.Proofs.Compile.Agreement
import StackScript.Proofs.Compile.Independence
import StackScript.Proofs.Nesting.Levels
import StackScript.Proofs.Nesting.Reader
import StackScript.Proofs.Nesting.Decompiler
import StackScript.Proofs.Nesting.Limits
import StackScript.Proofs.Yaml.Quoted
import StackScript.Proofs.Yaml.Flow
import StackScript.Proofs.Document.Parts
import StackScript.Proofs.Json.Text
import StackScript.Proofs.Number.Display
import StackScript.Proofs.Yaml.Scalars
import StackScript.Proofs.Yaml.Scanned
import StackScript.Proofs.Yaml.NodeTree
import StackScript.Proofs.Yaml.JsonNodes
import StackScript.Proofs.Compile.Trees
import StackScript.Proofs.Yaml.JsonReading
import StackScript.Proofs.Compile.JsonOutput
import StackScript.Proofs.Yaml.Levels
import StackScript.Proofs.Grammar.Operators
import StackScript.Proofs.Layout.Idempotence
import StackScript.Proofs.Token.Positions
import StackScript.Proofs.Grammar.Landmarks
import StackScript.Proofs.Compile.Places
import StackScript.Proofs.Decompile.Warnings
import StackScript.Proofs.Spelling.Scalars
import StackScript.Proofs.Layout.Quotes
import StackScript.Proofs.Layout.Properties
