import Horn.Proofs.OperatorRoundTrip
import Horn.Proofs.ClauseReading
import Horn.Proofs.StaticConditions
import Horn.Proofs.GrammarMeaning
import Horn.Proofs.FaultyTerms
import Horn.Proofs.ConditionFaults
import Horn.Proofs.ExpandedBodies
import Horn.Proofs.CollectedInstances
import Horn.Proofs.FactAnswers
import Horn.Proofs.RestoredStores
import Horn.Proofs.LinearOrder
import Horn.Proofs.ClauseFrames
import Horn.Proofs.ClauseChains
import Horn.Proofs.SymbolHistories
import Horn.Proofs.BetweenAnswers
import Horn.Proofs.DatedChoices
import Horn.Proofs.SlotAssignment
import Horn.Proofs.NormalTerms
