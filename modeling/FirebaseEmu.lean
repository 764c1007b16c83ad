import FirebaseEmu.Firestore.Atomic
import FirebaseEmu.Firestore.Cancel
import FirebaseEmu.Firestore.Scope
import FirebaseEmu.Firestore.Failures
import FirebaseEmu.Firestore.Listeners
import FirebaseEmu.Firestore.SetFilters
import FirebaseEmu.Firestore.ArrayUnion
import FirebaseEmu.Firestore.NameGrammar
import FirebaseEmu.Firestore.AutomaticIds
import FirebaseEmu.Firestore.QueryRejections
import FirebaseEmu.Pubsub.Transport
import FirebaseEmu.Pubsub.Posting
import FirebaseEmu.Pubsub.Listing
import FirebaseEmu.Functions.Handled
import FirebaseEmu.Functions.Injection
import FirebaseEmu.Auth.Acceptance
import FirebaseEmu.Ui.Clone
import FirebaseEmu.Auth.EmailLookup
import FirebaseEmu.Auth.SignUp
import FirebaseEmu.Storage.ListPages
import FirebaseEmu.Storage.Sessions
import FirebaseEmu.Storage.MultipartLoop
import FirebaseEmu.Firestore.FieldLens
import FirebaseEmu.Firestore.ChannelTargets
import FirebaseEmu.Functions.Status
import FirebaseEmu.Functions.Executed
import FirebaseEmu.Functions.TriggerTasks
import FirebaseEmu.Config.Listeners
import FirebaseEmu.Config.Arguments
import FirebaseEmu.Firestore.Counters
import FirebaseEmu.DataDirectory.Readers
import FirebaseEmu.DataDirectory.Migration
