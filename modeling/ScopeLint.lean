import ScopeLint.Text.Quoted
import ScopeLint.Text.Escape
import ScopeLint.Text.Style
import ScopeLint.Tree.Equality
import ScopeLint.Tree.Fields
import ScopeLint.Tree.Induction
import ScopeLint.Config
import ScopeLint.Sink
import ScopeLint.Visitor.Script
import ScopeLint.Linter
import ScopeLint.Sample
import ScopeLint.Release
import ScopeLint.Main
import ScopeLint.Proofs.Course
import ScopeLint.Proofs.ScopeCourse
import ScopeLint.Proofs.Lexical
import ScopeLint.Proofs.LiveNames
import ScopeLint.Proofs.CurrentMacro
import ScopeLint.Proofs.Isolation
import ScopeLint.Proofs.TrappedTemplate
import ScopeLint.Proofs.Lockstep
import ScopeLint.Proofs.SilencedNames
import ScopeLint.Proofs.FreshStart
import ScopeLint.Proofs.Reporting
import ScopeLint.Proofs.StrictRuns
import ScopeLint.Proofs.Composition
import ScopeLint.Proofs.Decoration
import ScopeLint.Proofs.Renaming
import ScopeLint.Proofs.Skeleton
import ScopeLint.Proofs.Simulation
import ScopeLint.Proofs.LaterFindings
import ScopeLint.Proofs.WiderScopes
import ScopeLint.Proofs.Headers
import ScopeLint.Proofs.TemplateNames
import ScopeLint.Proofs.Unfolding
import ScopeLint.Proofs.PlacedGuards
import ScopeLint.Proofs.AssignmentTargets
import ScopeLint.Proofs.BadReplies
import ScopeLint.Proofs.Bracketing
import ScopeLint.Proofs.Replacements
import ScopeLint.Proofs.EscapeGrammar
import ScopeLint.Proofs.Leftovers
import ScopeLint.Proofs.SinksAgree
import ScopeLint.Proofs.Tables
import ScopeLint.Proofs.ManyTemplates
import ScopeLint.Proofs.FieldAgreement
import ScopeLint.Proofs.Locations
import ScopeLint.Proofs.TreeEquality
import ScopeLint.Proofs.NetEffect
