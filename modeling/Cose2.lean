import Cose2.Header
import Cose2.Message.EncLifecycle
import Cose2.Message.Verification
import Cose2.Message.SignSlots
import Cose2.Strict.DuplicateKeys
import Cose2.Strict.MessageShape
import Cose2.Strict.WellFormed
import Cose2.Message.Structures
import Cose2.Message.FailedCreation
import Cose2.SdCwt.ClaimViews
import Cose2.SdCwt.Policy
import Cose2.Message.SignDecision
import Cose2.Message.SetSignatures
import Cose2.MapRoundTrip
import Cose2.Cwt.Received
import Cose2.Cwt.RoundTrip
import Cose2.SdCwt.Undisclosed
import Cose2.SdCwt.Stripping
import Cose2.SdCwt.Presentation
import Cose2.SdCwt.Constructors
import Cose2.Nonce
import Cose2.RsaKey
import Cose2.Strict.KnownTags
import Cose2.UncheckedHeader
import Cose2.Message.Preparation
import Cose2.Message.RecipientTree
import Cose2.KeySet
import Cose2.ContextRoundTrip
import Cose2.CounterSignRoundTrip
import Cose2.Strict.Bounds
import Cose2.SdCwt.ItemCounters
import Cose2.Message.RecipientRoundTrip
import Cose2.Message.RoundTrip
import Cose2.Message.SignReencode
import Cose2.Crypto.EndToEnd
import Cose2.Crypto.KeyUse
import Cose2.Message.Relays
import Cose2.SdCwt.EndToEnd
import Cose2.SdCwt.Presenting
