import SyntheticArbitrage.Lib.Run
import SyntheticArbitrage.Lib.Window
import SyntheticArbitrage.Lib.Clock
import SyntheticArbitrage.Lib.Trace
import SyntheticArbitrage.Lib.LastWrite
import SyntheticArbitrage.Lib.Mean
import SyntheticArbitrage.Lib.Greedy
import SyntheticArbitrage.Lib.OrderedMap
import SyntheticArbitrage.Lib.Utf8
import SyntheticArbitrage.Lib.Utf8Table
import SyntheticArbitrage.Lib.ByteOrder
import SyntheticArbitrage.Lib.BufferReader
import SyntheticArbitrage.Lib.Throttle
import SyntheticArbitrage.Lib.Drawdown
import SyntheticArbitrage.Lib.CappedStake
import SyntheticArbitrage.Lib.SharedFile
import SyntheticArbitrage.Lib.Csv
import SyntheticArbitrage.Lib.Rounding
import SyntheticArbitrage.Lib.Binary
import SyntheticArbitrage.Lib.Erfc
import SyntheticArbitrage.Lib.CallValue
import SyntheticArbitrage.Double
import SyntheticArbitrage.Binary64
import SyntheticArbitrage.MathFunctions
import SyntheticArbitrage.Loggers
import SyntheticArbitrage.MockPnLEngine
import SyntheticArbitrage.TradeAlgebra
import SyntheticArbitrage.RollingStdDev
import SyntheticArbitrage.ArbOpportunityEngine
import SyntheticArbitrage.TriggerRate
import SyntheticArbitrage.MispricingBuffer
import SyntheticArbitrage.SpotSynth.Basic
import SyntheticArbitrage.SpotSynth.Sync
import SyntheticArbitrage.SpotSynth.Mispricing
import SyntheticArbitrage.SpotSynth.Trades
import SyntheticArbitrage.SpotSynth.Pipeline
import SyntheticArbitrage.SpotSynth.RealPrice
import SyntheticArbitrage.SpotSynth.Wiring
import SyntheticArbitrage.SpotSynth.BreakEven
import SyntheticArbitrage.SyntheticPerpEngine
import SyntheticArbitrage.PerpPricing
import SyntheticArbitrage.SyntheticPair
import SyntheticArbitrage.Arrival
import SyntheticArbitrage.NumberText
import SyntheticArbitrage.Numeral
import SyntheticArbitrage.Json
import SyntheticArbitrage.JsonText.Lexer
import SyntheticArbitrage.JsonText.StringText
import SyntheticArbitrage.JsonText.NumberScan
import SyntheticArbitrage.JsonText.TokenText
import SyntheticArbitrage.JsonText.Parser
import SyntheticArbitrage.JsonText.Grammar
import SyntheticArbitrage.JsonText.Members
import SyntheticArbitrage.WebSocket.Utf8Validator
import SyntheticArbitrage.WebSocket.Masking
import SyntheticArbitrage.WebSocket.Frame
import SyntheticArbitrage.WebSocket.Processor
import SyntheticArbitrage.WebSocket.Buffers
import SyntheticArbitrage.WebSocket.Reassembly
import SyntheticArbitrage.WebSocket.FrameReader
import SyntheticArbitrage.WebSocket.Stream
import SyntheticArbitrage.WebSocket.Sender
import SyntheticArbitrage.WebSocket.Connection
import SyntheticArbitrage.TradeTick
import SyntheticArbitrage.FundingCache
import SyntheticArbitrage.Feed.App
import SyntheticArbitrage.Feed.Binance
import SyntheticArbitrage.Feed.Batch
import SyntheticArbitrage.Feed.Delivery
import SyntheticArbitrage.Feed.Separation
import SyntheticArbitrage.Feed.Bybit
import SyntheticArbitrage.Feed.Atomicity
import SyntheticArbitrage.Feed.Lookups
import SyntheticArbitrage.Feed.Numerals
import SyntheticArbitrage.Feed.Funding
import SyntheticArbitrage.Feed.FundingErrors
import SyntheticArbitrage.Feed.MoneySafety
import SyntheticArbitrage.TradeLog.Text
import SyntheticArbitrage.TradeLog.File
import SyntheticArbitrage.TradeLog.WellFormed
import SyntheticArbitrage.PriceLog.Text
import SyntheticArbitrage.PriceLog.Decode
import SyntheticArbitrage.Report.Summary
import SyntheticArbitrage.Report.Table
import SyntheticArbitrage.Report.Documented
import SyntheticArbitrage.Report.Accounting
import SyntheticArbitrage.Report.Timestamps
import SyntheticArbitrage.Report.Drawdown
import SyntheticArbitrage.OptionPricer
import SyntheticArbitrage.Feed.News
import SyntheticArbitrage.Feed.Overlay
import SyntheticArbitrage.Feed.Comparisons
import SyntheticArbitrage.Feed.PerpMonitor
import SyntheticArbitrage.Feed.Payload
