import KernelRegistry.KernelSpec.Printer
import KernelRegistry.Main
import KernelRegistry.Manifest.Printer
import KernelRegistry.Proofs.FileTree.Node
import KernelRegistry.Proofs.FileTree.Way
import KernelRegistry.Proofs.FileTree.Walk
import KernelRegistry.Proofs.FileTree.Actions
import KernelRegistry.Proofs.FileTree.Within
import KernelRegistry.Proofs.FileTree.Copy
import KernelRegistry.Proofs.FileTree.Image
import KernelRegistry.Proofs.FileTree.Removal
import KernelRegistry.Proofs.FileTree.Approach
import KernelRegistry.Proofs.Install.Course
import KernelRegistry.Proofs.Install.Result
import KernelRegistry.Proofs.Destination
import KernelRegistry.Proofs.Install.Frame
import KernelRegistry.Proofs.FileTree.Computed
import KernelRegistry.Proofs.Install.Containment
import KernelRegistry.Proofs.Install.Failure
import KernelRegistry.Proofs.Json.Literal
import KernelRegistry.Proofs.Json.Numeral
import KernelRegistry.Proofs.Json.Document
import KernelRegistry.Proofs.Table
import KernelRegistry.Proofs.Template.Substitution
import KernelRegistry.Proofs.Json.Canonical
import KernelRegistry.Proofs.Template.Rendering
import KernelRegistry.Proofs.CommandLine.Shape
import KernelRegistry.Proofs.CommandLine.ManifestPath
import KernelRegistry.Proofs.Manifest
import KernelRegistry.Proofs.CommandLine.Items
import KernelRegistry.Proofs.CommandLine.Settings
import KernelRegistry.Proofs.FileTree.Ancestors
import KernelRegistry.Proofs.FileTree.Sealed
import KernelRegistry.Proofs.Install.Confined
import KernelRegistry.Proofs.Install.Bundle
import KernelRegistry.Proofs.Run
import KernelRegistry.Proofs.FileTree.ReadBack
import KernelRegistry.Proofs.Settings
import KernelRegistry.Proofs.Decimal.Binary64
import KernelRegistry.Proofs.Decimal.Shortest
import KernelRegistry.Proofs.Json.Real
import KernelRegistry.Proofs.Install.Environment
import KernelRegistry.Proofs.Json.Skip
import KernelRegistry.Proofs.Json.Typed
import KernelRegistry.Proofs.Presentation.Members
import KernelRegistry.Proofs.Presentation.Parameter
import KernelRegistry.Proofs.Presentation.Manifest
import KernelRegistry.Proofs.Presentation.KernelSpec
import KernelRegistry.Proofs.Presentation.RoundTrip
import KernelRegistry.Proofs.CommandLine.Accepted
import KernelRegistry.Proofs.Destination.Absolute
import KernelRegistry.Proofs.Settings.Values
import KernelRegistry.Proofs.CommandLine.Assignments
import KernelRegistry.Proofs.FileTree.Agree
import KernelRegistry.Proofs.FileTree.Frame
import KernelRegistry.Proofs.FileTree.Alike
import KernelRegistry.Proofs.Install.Alike
import KernelRegistry.Proofs.Path.Parent
import KernelRegistry.Proofs.FileTree.Further
import KernelRegistry.Proofs.FileTree.Beforehand
import KernelRegistry.Proofs.Install.Beforehand
import KernelRegistry.Proofs.Install.Commute
import KernelRegistry.Proofs.Decimal.Numeral
import KernelRegistry.Proofs.Manifest.Demands
import KernelRegistry.Proofs.Template.FixedPoint
import KernelRegistry.Proofs.FileTree.Kept
import KernelRegistry.Proofs.FileTree.Traced
import KernelRegistry.Proofs.FileTree.Filled
import KernelRegistry.Proofs.FileTree.Calls
import KernelRegistry.Proofs.FileTree.Found
import KernelRegistry.Proofs.FileTree.Exact
import KernelRegistry.Proofs.FileTree.Vacant
import KernelRegistry.Proofs.Settings.Positions
import KernelRegistry.Proofs.Template.Fragment
import KernelRegistry.Proofs.Json.Refused
import KernelRegistry.Proofs.Template.Problems
import KernelRegistry.Proofs.CommandLine.Location
import KernelRegistry.Proofs.CommandLine.Spellings
import KernelRegistry.Proofs.FileTree.Spelled
import KernelRegistry.Proofs.Path.Components
import KernelRegistry.Proofs.Destination.Interpreter
