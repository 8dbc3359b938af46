import CartaZarr.AlignedBlocks
import CartaZarr.Dataset
import CartaZarr.OpenedImage
import CartaZarr.Read.PrefetchOnce
import CartaZarr.Read.StoredCost
import CartaZarr.ReadAhead.Batches
import CartaZarr.ReadAhead.CacheDemand
import CartaZarr.Reduce.CubePass
import CartaZarr.Reduce.DecodedOnce
import CartaZarr.Reduce.Divisors
import CartaZarr.Reduce.Footprints
import CartaZarr.Reduce.PassCover
import CartaZarr.Reduce.PassProgress
import CartaZarr.Reduce.PlaneHistogram
import CartaZarr.Reduce.RunEncoders
import CartaZarr.Reduce.Sampling
import CartaZarr.Reduce.SlabBudget
import CartaZarr.Reduce.SlabPixels
import CartaZarr.Reduce.SlotSpreads
import CartaZarr.Reduce.SpectralReduce
import CartaZarr.Reduce.TaskSplit
import CartaZarr.Store.Accounted
import CartaZarr.Store.DatasetSize
import CartaZarr.Store.Remembered
import CartaZarr.Store.Verified
import CartaZarr.WorkPool.Runs
import CartaZarr.Xradio.BeamTable
import CartaZarr.Xradio.Flag
import CartaZarr.Xradio.Inspection
import CartaZarr.Xradio.IsoDate
import CartaZarr.Xradio.LinearAxis
import CartaZarr.Xradio.Offered
import CartaZarr.Xradio.Qualification
import CartaZarr.Xradio.Refusals
import CartaZarr.Xradio.Steadfast
import CartaZarr.Xradio.Undisturbed
import CartaZarr.Zarr.Checksums
import CartaZarr.Zarr.StorageLayout
import CartaZarr.Zarr.StringFormat
