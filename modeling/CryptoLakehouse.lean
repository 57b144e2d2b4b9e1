import CryptoLakehouse.ProducerSchemas
import CryptoLakehouse.ProducerStream
import CryptoLakehouse.ProducerPublisher
import CryptoLakehouse.ProducerMain
import CryptoLakehouse.ConsumerTimer
import CryptoLakehouse.ConsumerAck
import CryptoLakehouse.WarehouseSilver
import CryptoLakehouse.WarehouseContract
import CryptoLakehouse.WarehouseRefresh
import CryptoLakehouse.WarehouseGold
import CryptoLakehouse.WarehouseVwap
import CryptoLakehouse.LakehouseExport
import CryptoLakehouse.LakehouseFreshness
import CryptoLakehouse.LakehouseCatalog
import CryptoLakehouse.ConsumerRepository
import CryptoLakehouse.ConsumerExactlyOnce
import CryptoLakehouse.ConsumerIsolation
import CryptoLakehouse.ConsumerShutdown
import CryptoLakehouse.ConsumerSignal
import CryptoLakehouse.WarehouseRerun
import CryptoLakehouse.InfraMigrate
import CryptoLakehouse.ProducerContract
import CryptoLakehouse.ConsumerDelivery
import CryptoLakehouse.LakehouseRetry
import CryptoLakehouse.ConsumerDuplicates
import CryptoLakehouse.ConsumerOverload
import CryptoLakehouse.ConsumerSizeTrigger
import CryptoLakehouse.ConsumerStop
import CryptoLakehouse.ProducerValidation
import CryptoLakehouse.ProducerReconnect
import CryptoLakehouse.ProducerPacing
import CryptoLakehouse.ProducerSockets
import CryptoLakehouse.LakehouseFullExport
import CryptoLakehouse.WarehouseBounds
import CryptoLakehouse.LakehouseUpload
import CryptoLakehouse.ProducerAccounting
import CryptoLakehouse.InfraListing
import CryptoLakehouse.LakehouseSql
import CryptoLakehouse.LakehousePartitions
import CryptoLakehouse.InfraTraffic
import CryptoLakehouse.PipelineEndToEnd
import CryptoLakehouse.PipelineDag
import CryptoLakehouse.InfraSchema
import CryptoLakehouse.PipelineIngestion
import CryptoLakehouse.PipelineSystem
import CryptoLakehouse.PipelineFirstRun
import CryptoLakehouse.PipelineRefinement
import CryptoLakehouse.PipelineInRange
import CryptoLakehouse.PipelineHistory
import CryptoLakehouse.PipelineRecovery
