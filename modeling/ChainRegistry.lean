import ChainRegistry.Main
import ChainRegistry.Proofs.Admission
import ChainRegistry.Proofs.Amounts
import ChainRegistry.Proofs.ChatDocuments
import ChainRegistry.Proofs.Console.JurisdictionChecks
import ChainRegistry.Proofs.FirstViolation
import ChainRegistry.Proofs.Headroom
import ChainRegistry.Proofs.JsonAndToml
import ChainRegistry.Proofs.JsonRoundTrip
import ChainRegistry.Proofs.Keys
import ChainRegistry.Proofs.Loading
import ChainRegistry.Proofs.ObjectReading
import ChainRegistry.Proofs.Positions
import ChainRegistry.Proofs.Promises
import ChainRegistry.Proofs.RegistryPositions
import ChainRegistry.Proofs.Settings.IntegerTexts
import ChainRegistry.Proofs.Settings.PolicyTexts
import ChainRegistry.Proofs.Settings.Reloading
import ChainRegistry.Proofs.Settings.StrictReading
import ChainRegistry.Proofs.TagLists
import ChainRegistry.Proofs.TomlRoundTrip
import ChainRegistry.Proofs.Validity
import ChainRegistry.Proofs.Voting.AddedVotes
import ChainRegistry.Proofs.Voting.ExactShares
import ChainRegistry.Proofs.Voting.Monotonicity
import ChainRegistry.Proofs.Voting.ValidRules
