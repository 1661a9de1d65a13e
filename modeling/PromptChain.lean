import PromptChain.Schema.Describe
import PromptChain.Schema.Example
import PromptChain.Schema.Parse
import PromptChain.Text.Digest
import PromptChain.Text.Slug
import PromptChain.Text.Template
import PromptChain.Prompt
import PromptChain.Watched
import PromptChain.Chain.Run
import PromptChain.Rehearsal
import PromptChain.Broadcast
import PromptChain.Preset
import PromptChain.Value.Quantity
import PromptChain.Proofs.Chain.Order
import PromptChain.Proofs.Chain.Leftover
import PromptChain.Proofs.Chain.Interruption
import PromptChain.Proofs.Chain.Formatting
import PromptChain.Proofs.Chain.LastResult
import PromptChain.Proofs.Chain.Conversation
import PromptChain.Proofs.Chain.Failure
import PromptChain.Proofs.Schema.Idempotence
import PromptChain.Proofs.Json.Numerals
import PromptChain.Proofs.Json.Strings
import PromptChain.Proofs.Json.RoundTrip
import PromptChain.Proofs.Schema.TextInput
import PromptChain.Proofs.Schema.Examples
import PromptChain.Proofs.Chain.Undoing
import PromptChain.Proofs.Chain.SystemPrompt
import PromptChain.Proofs.Chain.Reprocessing
import PromptChain.Proofs.Chain.Listeners
import PromptChain.Proofs.Text.Templates
import PromptChain.Proofs.Chain.Reshaping
import PromptChain.Proofs.Chain.Correction
import PromptChain.Proofs.Chain.Isolation
import PromptChain.Proofs.Cache.Map
import PromptChain.Proofs.Cache.Callers
import PromptChain.Proofs.Provider.Replies
import PromptChain.Proofs.Provider.Transcripts
import PromptChain.Proofs.Telemetry.Delivery
import PromptChain.Proofs.Telemetry.Watching
import PromptChain.Proofs.Telemetry.Silence
import PromptChain.Proofs.Telemetry.Lifecycle
import PromptChain.Proofs.Provider.Overlap
import PromptChain.Proofs.Schema.Refusals
import PromptChain.Proofs.Prompt.Sections
import PromptChain.Proofs.Chain.Quotation
import PromptChain.Proofs.Cache.Damage
import PromptChain.Proofs.Cache.Interference
import PromptChain.Proofs.Provider.Lifetime
import PromptChain.Proofs.Provider.Retrying
import PromptChain.Proofs.Chain.Bounded
import PromptChain.Proofs.Schema.Declared
import PromptChain.Proofs.Schema.Descriptions
import PromptChain.Proofs.Schema.Conformance
import PromptChain.Proofs.Schema.Cycles
import PromptChain.Proofs.Schema.NumberTexts
import PromptChain.Proofs.Provider.Payloads
