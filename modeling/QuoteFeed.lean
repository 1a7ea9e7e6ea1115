import QuoteFeed.HeartbeatSession
import QuoteFeed.Main
import QuoteFeed.Scenario
import QuoteFeed.WireSession
import QuoteFeed.Proofs.Conduct
import QuoteFeed.Proofs.Ends
import QuoteFeed.Proofs.Runs
import QuoteFeed.Proofs.Settling
import QuoteFeed.Proofs.ScriptedConduct
import QuoteFeed.Proofs.Changes
import QuoteFeed.Proofs.Acts
import QuoteFeed.Proofs.Discipline
import QuoteFeed.Proofs.Keeping
import QuoteFeed.Proofs.Lifecycle
import QuoteFeed.Proofs.Quoting
import QuoteFeed.Proofs.Requests
import QuoteFeed.Proofs.History
import QuoteFeed.Proofs.WireAgreement
import QuoteFeed.Proofs.Confinement
import QuoteFeed.Proofs.LateReports
import QuoteFeed.Proofs.Disposal
import QuoteFeed.Proofs.FailedAttempts
import QuoteFeed.Proofs.LastQuotes
import QuoteFeed.Proofs.Instruments
import QuoteFeed.Proofs.Delivery
import QuoteFeed.Proofs.Delays
import QuoteFeed.Proofs.Beating
import QuoteFeed.Proofs.Rounding
import QuoteFeed.Proofs.DecimalNotation
import QuoteFeed.Proofs.Routing
import QuoteFeed.Proofs.Pacing
import QuoteFeed.Proofs.Retelling
import QuoteFeed.Proofs.Reconnects
import QuoteFeed.Proofs.Budget
import QuoteFeed.Proofs.Courses
import QuoteFeed.Proofs.Watching
import QuoteFeed.Proofs.Brackets
import QuoteFeed.Proofs.Exhaustion
import QuoteFeed.Proofs.QuoteRecord
import QuoteFeed.Proofs.Arrivals
import QuoteFeed.Proofs.Outbox
import QuoteFeed.Proofs.GivingUp
import QuoteFeed.Proofs.Stamps
import QuoteFeed.Proofs.StartUp
import QuoteFeed.Proofs.EpochTimes
import QuoteFeed.Proofs.IntegerFields
import QuoteFeed.Proofs.Documents
import QuoteFeed.Proofs.TextAndFile
import QuoteFeed.Proofs.Ages
import QuoteFeed.Proofs.Layering
import QuoteFeed.Proofs.Shelves
import QuoteFeed.Proofs.Enrolment
import QuoteFeed.Proofs.FrameNumbers
import QuoteFeed.Proofs.BookLevels
import QuoteFeed.Proofs.FiniteNumbers
import QuoteFeed.Proofs.OpenFrames
import QuoteFeed.Proofs.NumberLiterals
import QuoteFeed.Proofs.NumberForms
import QuoteFeed.Proofs.UnitCounts
import QuoteFeed.Proofs.Splitting
import QuoteFeed.Proofs.Addresses
import QuoteFeed.Proofs.Beginnings
import QuoteFeed.Proofs.Dialing
import QuoteFeed.Proofs.Securing
import QuoteFeed.Proofs.CanonicalIntegers
import QuoteFeed.Proofs.DesiredOrder
import QuoteFeed.Proofs.Dealings
import QuoteFeed.Proofs.Scenarios
import QuoteFeed.Proofs.Telling
