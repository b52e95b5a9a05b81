import AvroSchema.Session
import AvroSchema.Schema.Walk
import AvroSchema.Proofs.Arrivals
import AvroSchema.Proofs.Itinerary
import AvroSchema.Proofs.Repetition
import AvroSchema.Proofs.ArrivalFailures
import AvroSchema.Proofs.Registrations
import AvroSchema.Proofs.FailFast
import AvroSchema.Proofs.Acceptance
import AvroSchema.Proofs.Codes
import AvroSchema.Proofs.DefinitionCounts
import AvroSchema.Proofs.FailureCounts
import AvroSchema.Proofs.DefinedNames
import AvroSchema.Proofs.Unfolding
import AvroSchema.Proofs.DottedNames
import AvroSchema.Proofs.Inheritance
import AvroSchema.Proofs.UnionBranches
import AvroSchema.Proofs.Frames
import AvroSchema.Proofs.FieldReports
import AvroSchema.Proofs.Reordering
import AvroSchema.Proofs.Visits
import AvroSchema.Proofs.Runs
import AvroSchema.Proofs.GrammaticalNames
import AvroSchema.Proofs.Relabelling
import AvroSchema.Proofs.Traces
import AvroSchema.Proofs.Resolution
import AvroSchema.Proofs.Recognition
import AvroSchema.Proofs.Declarations
import AvroSchema.Proofs.SpelledOut
import AvroSchema.Proofs.Spelling
import AvroSchema.Proofs.FileNumbers
import AvroSchema.Proofs.Messages
import AvroSchema.Proofs.NormalPaths
