import EventCodegen.Main
import EventCodegen.Template.Shelf
import EventCodegen.Proofs.AllOrNothing
import EventCodegen.Proofs.ContainedText
import EventCodegen.Proofs.Containment
import EventCodegen.Proofs.DecodedLiterals
import EventCodegen.Proofs.DryRuns
import EventCodegen.Proofs.LanguageNames
import EventCodegen.Proofs.PackageLayout
import EventCodegen.Proofs.PlanShape
import EventCodegen.Proofs.ReadableFiles
import EventCodegen.Proofs.SupportedNames
import EventCodegen.Proofs.SameEvents
import EventCodegen.Proofs.SavedSettings
import EventCodegen.Proofs.GrowingPlans
import EventCodegen.Proofs.WrittenPlans
import EventCodegen.Proofs.RefusedPlans
import EventCodegen.Proofs.ExitCodes
import EventCodegen.Proofs.PredefinedValues
import EventCodegen.Proofs.FieldNames
import EventCodegen.Proofs.EventShapes
import EventCodegen.Proofs.BaseMembers
import EventCodegen.Proofs.KotlinNames
import EventCodegen.Proofs.FaultyNodes
import EventCodegen.Proofs.StrictRuns
import EventCodegen.Proofs.NormalLayout
import EventCodegen.Proofs.ConstantRemarks
import EventCodegen.Proofs.FailedWrites
import EventCodegen.Proofs.PackageWarnings
import EventCodegen.Proofs.ScaledIndentation
import EventCodegen.Proofs.UnreadableSettings
import EventCodegen.Proofs.FetchedTexts
import EventCodegen.Proofs.SameGenerations
import EventCodegen.Proofs.RefusedRegistrations
import EventCodegen.Proofs.JoinedWords
import EventCodegen.Proofs.LeastFreeNames
import EventCodegen.Proofs.CreatedGenerators
import EventCodegen.Proofs.CountedDeclarations
