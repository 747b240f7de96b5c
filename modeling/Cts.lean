import Cts.Bank.Backing
import Cts.Bank.Finished
import Cts.Bank.LogBytes
import Cts.Bank.Owner
import Cts.Bank.Pointers
import Cts.Bank.Refunds
import Cts.Exchange.Audit
import Cts.Exchange.Refines
import Cts.Exchange.Script
import Cts.Exchange.System
import Cts.Frontcode.Approved
import Cts.Frontcode.Served
import Cts.Lib.Sources
import Cts.Main.Creation
import Cts.Main.Upgrades
import Cts.Tc.AverageRate
import Cts.Tc.BookViews
import Cts.Tc.CandleViews
import Cts.Tc.Capacity
import Cts.Tc.Drain
import Cts.Tc.ExactRuns
import Cts.Tc.Exits
import Cts.Tc.FeeTiers
import Cts.Tc.FinalRecords
import Cts.Tc.FlushEnds
import Cts.Tc.Flushed
import Cts.Tc.Indexed
import Cts.Tc.LatestTrades
import Cts.Tc.MarketSummary
import Cts.Tc.Memos
import Cts.Tc.Minimum
import Cts.Tc.Orders
import Cts.Tc.Owners
import Cts.Tc.Paid
import Cts.Tc.Pipeline
import Cts.Tc.Places
import Cts.Tc.PendingTrades
import Cts.Tc.PositionLogBytes
import Cts.Tc.PositionViews
import Cts.Tc.PositionsRead
import Cts.Tc.Priority
import Cts.Tc.ReadBack
import Cts.Tc.Reconcile
import Cts.Tc.Script
import Cts.Tc.Solvency
import Cts.Tc.StorageViews
import Cts.Tc.StoredIds
import Cts.Tc.Subaccounts
import Cts.Tc.TradeLogBytes
import Cts.Tc.TradeViews
import Cts.Tc.TradesRead
import Cts.Tc.UserCalls
import Cts.Tc.WakeUps
import Cts.Tc.Withdrawals
