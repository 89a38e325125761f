import EventSourcing.Remote.Session
import EventSourcing.Session.Roots
import EventSourcing.Session.Subscriptions
import EventSourcing.Settings.Load
import EventSourcing.Proofs.Log.PlainStore
import EventSourcing.Proofs.Group.Run
import EventSourcing.Proofs.Subscription.Follow
import EventSourcing.Proofs.Repository.Drafts
import EventSourcing.Proofs.Subscription.Resume
import EventSourcing.Proofs.Subscription.Filtering
import EventSourcing.Proofs.Subscription.Crew
import EventSourcing.Proofs.Group.Redelivery
import EventSourcing.Proofs.Log.Order
import EventSourcing.Proofs.Log.Projection
import EventSourcing.Proofs.Subscription.Start
import EventSourcing.Proofs.Group.Retention
import EventSourcing.Proofs.Subscription.Closing
import EventSourcing.Proofs.Store.Guard
import EventSourcing.Proofs.Store.Conflict
import EventSourcing.Proofs.Event.Codec
import EventSourcing.Proofs.Group.Polling
import EventSourcing.Proofs.Repository.Agreement
import EventSourcing.Proofs.Repository.Removal
import EventSourcing.Proofs.Subscription.Supervision
import EventSourcing.Proofs.Settings.Layers
import EventSourcing.Proofs.Remote.Reopening
import EventSourcing.Proofs.Remote.Resuming
import EventSourcing.Proofs.Remote.Draining
import EventSourcing.Proofs.Repository.Reordering
import EventSourcing.Proofs.Group.HandingBack
