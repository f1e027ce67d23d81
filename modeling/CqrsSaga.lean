import CqrsSaga.App.System
import CqrsSaga.Lock.Clients
import CqrsSaga.Order.Duplicates
import CqrsSaga.Saga.Begun
import CqrsSaga.Saga.Start
import CqrsSaga.Saga.DuplicateSteps
import CqrsSaga.Saga.Completed
import CqrsSaga.Saga.Compensated
import CqrsSaga.Saga.Copies
import CqrsSaga.Saga.Finality
import CqrsSaga.Order.Confirmed
import CqrsSaga.Order.Traced
import CqrsSaga.Order.Overlap
import CqrsSaga.Order.Products
import CqrsSaga.Order.Apart
import CqrsSaga.Order.Attached
import CqrsSaga.Order.Commuting
import CqrsSaga.Payment.Refunds
import CqrsSaga.Payment.Settled
import CqrsSaga.Saga.Compensation
import CqrsSaga.Async.Told
import CqrsSaga.Saga.Handled
import CqrsSaga.Order.History
import CqrsSaga.Event.Logged
import CqrsSaga.Event.Routed
import CqrsSaga.Order.Owned
import CqrsSaga.Codec.Base64Url
import CqrsSaga.Auth.Service
import CqrsSaga.Auth.Rotation
import CqrsSaga.App.Alone
import CqrsSaga.Event.Topics
import CqrsSaga.Order.Paged
import CqrsSaga.Saga.Health
import CqrsSaga.Order.Amounts
import CqrsSaga.Lock.Attempts
import CqrsSaga.Order.Cleanup
import CqrsSaga.Auth.Registration
import CqrsSaga.Progress.Routine
import CqrsSaga.Progress.Rows
import CqrsSaga.Progress.Locks
import CqrsSaga.Progress.Outcomes
import CqrsSaga.Event.Ledger
import CqrsSaga.Order.Announced
import CqrsSaga.Auth.Sessions
import CqrsSaga.Order.Readable
