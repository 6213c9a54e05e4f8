import StaticIndex.ForStd.List
import StaticIndex.Native.Snapshot
import StaticIndex.Native.KAryIndex
import StaticIndex.Native.Lifetime
import StaticIndex.Native.FastRandom
import StaticIndex.Native.BatchKeys
import StaticIndex.Spec.Snapshot
import StaticIndex.Spec.Layout
import StaticIndex.Spec.Construct
import StaticIndex.Spec.BinarySearch
import StaticIndex.Spec.Reorganize
import StaticIndex.Spec.Descent
import StaticIndex.Spec.Find
import StaticIndex.Spec.Refinement
import StaticIndex.Spec.Overflow
import StaticIndex.Spec.Lifetime
import StaticIndex.Spec.BatchKeys
import StaticIndex.Spec.RandomKeys
