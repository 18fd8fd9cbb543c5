import WorkerdQueue.Codec
import WorkerdQueue.Encoding
import WorkerdQueue.Json
import WorkerdQueue.Send
import WorkerdQueue.SendAgreement
import WorkerdQueue.BatchBody
import WorkerdQueue.Table
import WorkerdQueue.Ledger
import WorkerdQueue.LedgerOrder
import WorkerdQueue.LedgerHistory
import WorkerdQueue.Rpc
import WorkerdQueue.Dispatch
import WorkerdQueue.Run
